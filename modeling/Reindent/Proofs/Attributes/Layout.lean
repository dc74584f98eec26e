import Reindent.Proofs.Attributes.Steps
import Reindent.Proofs.Matching.Starts

/-! The layout of opening tags that go on over several lines. A line that starts with the bracket of
the tag lines up with the line of the tag, and other lines line up with its first attribute. -/
namespace Reindent
open Bytes Text

namespace Text

theorem count_append_of_visible {b : UInt8} (hb : isInert b = false) (s rest : Bytes) :
    Utf8.count (s ++ b :: rest) = Utf8.count s + Utf8.count (b :: rest) := by
  unfold Utf8.count
  rw [Utf8.decode_append_of_head (by simpa using isTail_of_ascii (lt_of_isInert hb)),
    List.length_append]

theorem count_append_gap {gap : Bytes} (h : ∀ b ∈ gap, isGap b = true) (s : Bytes) :
    Utf8.count (s ++ gap) = Utf8.count s + gap.length := by
  have hlength : (Utf8.decode gap).length = gap.length := by
    induction gap with
    | nil => rfl
    | cons b gap ih =>
      have hb : b < 0x80 := by
        have hgap := h b List.mem_cons_self
        simp only [isGap, Bool.or_eq_true, beq_iff_eq] at hgap
        rcases hgap with rfl | rfl <;> decide
      rw [Utf8.decode_cons, first_ascii gap hb, List.length_cons, List.length_cons]
      exact congrArg (· + 1) (ih fun x hx => h x (List.mem_cons_of_mem _ hx))
  unfold Utf8.count
  rw [decode_append_allBlank (allBlank_of_isGap h), List.length_append, hlength]

theorem trimLeft_append_of_visible {b : UInt8} (hb : isInert b = false) (s rest : Bytes) :
    trimLeft (s ++ b :: rest) = trimLeft s ++ b :: rest := by
  have hascii := lt_of_isInert hb
  have hvisible : blank (Utf8.first b rest).1 = false := by
    have hone : allBlank [b] = false := allBlank_of_mem (List.mem_singleton.2 rfl) hb
    rw [allBlank, Utf8.decode_cons, first_ascii [] hascii] at hone
    rw [first_ascii rest hascii]
    simpa using hone
  have hdrop : (Utf8.decode (b :: rest)).dropWhile blank = Utf8.decode (b :: rest) := by
    rw [Utf8.decode_cons, List.dropWhile_cons_of_neg (by rw [hvisible]; simp)]
  unfold trimLeft
  rw [Utf8.decode_append_of_head (by simpa using isTail_of_ascii hascii), List.dropWhile_append,
    hdrop]
  split_ifs with hempty
  · rw [List.isEmpty_iff.1 hempty, Utf8.encode_decode]
    rfl
  · conv_rhs => rw [← Utf8.encode_decode (b :: rest)]
    exact List.flatMap_append

/-- What is left behind the white space in front of a text, and the white space at its end. -/
theorem exists_trimLeft_eq (s : Bytes) :
    ∃ tail, trimLeft s = trim s ++ tail ∧ allBlank tail = true := by
  generalize hd : (Utf8.decode s).dropWhile blank = symbols
  have hsplit : symbols = strip blank (Utf8.decode s) ++
      (symbols.reverse.takeWhile blank).reverse := by
    rw [strip, hd, ← List.reverse_append, List.takeWhile_append_dropWhile, List.reverse_reverse]
  have hwhole : Utf8.decode s = (Utf8.decode s).takeWhile blank ++ (strip blank (Utf8.decode s) ++
      (symbols.reverse.takeWhile blank).reverse) := by
    rw [← hsplit, ← hd, List.takeWhile_append_dropWhile]
  refine ⟨Utf8.encode (symbols.reverse.takeWhile blank).reverse, ?_, ?_⟩
  · unfold trimLeft trim
    rw [hd]
    nth_rewrite 1 [hsplit]
    exact List.flatMap_append
  · have hrest := (Utf8.decode_encode_of_eq_append hwhole).2
    rw [allBlank_iff, (Utf8.decode_encode_of_eq_append hrest).2]
    intro x hx
    exact List.all_eq_true.1 List.all_takeWhile x (List.mem_reverse.1 hx)

end Text

namespace Markup

/-- An attribute can start with anything but a gap, the end of the line and the end of the tag. -/
def startsAttribute : Bytes → Bool
  | [] => false
  | b :: rest => !(isGap b || b == 10 || b == 13 || b == 62 || (b == 47 && rest.head? == some 62))

/-- The first attribute of a tag, behind a gap that follows the name of the tag. -/
structure FirstAttribute (rest gap attr : Bytes) : Prop where
  split : rest = gap ++ attr
  nonempty : gap ≠ []
  isGap : ∀ b ∈ gap, isGap b = true
  starts : startsAttribute attr = true

private theorem startsAttribute_of_ne {attr : Bytes} (hgap : ∀ b ∈ attr.head?, Bytes.isGap b = false)
    (hnil : attr ≠ []) (hline : ∀ more, attr ≠ 10 :: more) (hreturn : ∀ more, attr ≠ 13 :: more)
    (hend : ∀ more, attr ≠ 62 :: more) (hempty : ∀ more, attr ≠ 47 :: 62 :: more) :
    startsAttribute attr = true := by
  cases attr with
  | nil => exact absurd rfl hnil
  | cons b more =>
    have hslash : b = 47 → more.head? ≠ some 62 := by
      rintro rfl hmore
      obtain ⟨tail, rfl⟩ := List.head?_eq_some_iff.1 hmore
      exact hempty tail rfl
    simp only [startsAttribute, hgap b rfl, Bool.false_or, Bool.not_eq_true', Bool.or_eq_false_iff,
      Bool.and_eq_false_iff, beq_eq_false_iff_ne]
    refine ⟨⟨⟨?_, ?_⟩, ?_⟩, ?_⟩
    · exact fun hb => hline more (by rw [hb])
    · exact fun hb => hreturn more (by rw [hb])
    · exact fun hb => hend more (by rw [hb])
    · by_cases hb : b = 47
      · exact Or.inr (hslash hb)
      · exact Or.inl hb

/-- The gap in front of the first attribute is the longest one. -/
theorem attributeGap?_eq (rest : Bytes) :
    attributeGap? rest =
      if rest.takeWhile Bytes.isGap ≠ [] ∧ startsAttribute (rest.dropWhile Bytes.isGap) = true then
        some (rest.takeWhile Bytes.isGap).length
      else none := by
  have hhead : ∀ b ∈ (rest.dropWhile Bytes.isGap).head?, Bytes.isGap b = false := by
    intro b hb
    have hnot := List.head?_dropWhile_not Bytes.isGap rest
    rw [Option.mem_def.1 hb] at hnot
    exact hnot
  unfold attributeGap?
  dsimp only
  generalize rest.dropWhile Bytes.isGap = attr at hhead
  cases rest.takeWhile Bytes.isGap with
  | nil => simp
  | cons b gap =>
    rw [List.isEmpty_cons, if_neg Bool.false_ne_true]
    split
    · simp [startsAttribute]
    · simp [startsAttribute]
    · simp [startsAttribute]
    · simp [startsAttribute]
    · simp [startsAttribute]
    · next hnil hline hreturn hend hempty =>
      rw [if_pos ⟨by simp, startsAttribute_of_ne hhead hnil hline hreturn hend hempty⟩]

theorem attributeGap?_of_first {rest gap attr : Bytes} (h : FirstAttribute rest gap attr) :
    attributeGap? rest = some gap.length := by
  obtain ⟨rfl, hne, hgap, hstarts⟩ := h
  cases attr with
  | nil => exact absurd hstarts Bool.false_ne_true
  | cons b more =>
    have hb : ¬ Bytes.isGap b = true := by
      intro hb
      simp [startsAttribute, hb] at hstarts
    rw [attributeGap?_eq, List.takeWhile_append_of_pos hgap, List.takeWhile_cons_of_neg hb,
      List.dropWhile_append_of_pos hgap, List.dropWhile_cons_of_neg hb, List.append_nil,
      if_pos ⟨hne, hstarts⟩]

theorem exists_first_of_attributeGap? {rest : Bytes} {n : Nat} (h : attributeGap? rest = some n) :
    ∃ gap attr, FirstAttribute rest gap attr := by
  rw [attributeGap?_eq] at h
  split_ifs at h with hfirst
  refine ⟨_, _, List.takeWhile_append_dropWhile.symm, hfirst.1, fun b hb => ?_, hfirst.2⟩
  exact List.all_eq_true.1 List.all_takeWhile b hb

end Markup

def Line.IndentedBy (width : Int64) (l : Line) (n : Int) : Prop :=
  Int64.minValue.toInt ≤ n → n ≤ Int64.maxValue.toInt →
    l.indent width = List.replicate n.toNat 32 ++ l.text

theorem Line.indentedBy {l : Line} {width : Int64} {n : Int} (hwidth : 0 < width)
    (hignore : l.ignore = false) (htext : l.text ≠ [])
    (h : width * l.level + l.offset = Int64.ofInt n) : l.IndentedBy width n := by
  intro hlow hhigh
  have hfits : (Int64.ofInt n).toInt = n := by
    refine Int64.toInt_ofInt_of_le hlow (Int.lt_of_le_of_lt hhigh ?_)
    decide
  have hmargin : l.margin width = n.toNat := by
    unfold margin
    rw [h, hfits]
  have hshown : ¬ (l.text.isEmpty = true ∨ width ≤ 0) := by
    rintro (hnil | hle)
    · exact htext (List.isEmpty_iff.1 hnil)
    · exact absurd hwidth (Int64.not_lt.2 hle)
  unfold indent
  rw [hignore, if_neg Bool.false_ne_true, if_neg hshown, hmargin]

/-- The mark of a token in the middle of a line, by the lines above it and the tokens in front of
it. -/
def Scope.markAt (above : List Line) (before : List Token) (t : Token) : Mark :=
  ⟨above.length, (above.flatMap Line.seen).length + (before.dropWhile Token.isBlank).length, t⟩

namespace Scan
variable {width : Int64} {modes final : ModeStack} {tokens : List Token}

theorem InTag.shown (lead : List Token) (more : Bytes) (r : Reading) (h : r.InTag width lead more) :
    r.Shown more := h.toShown

theorem Chain.tagOffset? {x : Int64}
    (h : Chain (fun r => ∃ lead more, r.InTag width lead more) modes tokens final)
    (hno : ∀ t ∈ tokens, t.endsTag = false) (hx : modes.tagOffset? = some x) :
    final.tagOffset? = some x := by
  induction h with
  | nil modes => exact hx
  | cons hr _ ih =>
    obtain ⟨lead, more, hread⟩ := hr
    exact ih (fun t ht => hno t (List.mem_cons_of_mem _ ht))
      (hread.step.keeps (hno _ List.mem_cons_self) x hx)

end Scan

theorem Token.endsTag_of_isBlank {t : Token} (h : t.isBlank = true) : t.endsTag = false := by
  apply endsTag_of_ne
  have hends : ∀ text ∈ [ascii ">", ascii "/>"], allBlank text = false := by decide +kernel
  constructor
  · intro htext
    rw [isBlank, htext, hends _ (by simp)] at h
    exact Bool.false_ne_true h
  · intro htext
    rw [isBlank, htext, hends _ (by simp)] at h
    exact Bool.false_ne_true h

namespace Markup
variable {width : Int64} {lead : List Token} {text rest : Bytes}

/-- The further lines of a tag are shifted to the column of the first attribute, less one tab. -/
theorem offset_of_first {gap attr : Bytes} (h : FirstAttribute rest gap attr)
    (hhead : ∃ b tail, text = b :: tail ∧ isInert b = false) :
    ∃ front, trimLeft (lead.flatMap Token.text ++ (text ++ rest)) = front ++ attr ∧
      offset width lead text rest = Int64.ofNat (Utf8.count front) - width := by
  have hgap := attributeGap?_of_first h
  obtain ⟨rfl, hne, hblank, -⟩ := h
  obtain ⟨b, tail, rfl, hb⟩ := hhead
  refine ⟨trimLeft (lead.flatMap Token.text) ++ (b :: tail ++ gap), ?_, ?_⟩
  · rw [List.cons_append, trimLeft_append_of_visible hb]
    simp
  · have hcount := count_append_of_visible hb (trimLeft (lead.flatMap Token.text)) (tail ++ gap)
    rw [← List.cons_append, count_append_gap hblank] at hcount
    unfold offset openTag
    dsimp only
    rw [hgap]
    dsimp only
    unfold Line.column Line.raw
    dsimp only
    rw [hcount, ← Nat.add_assoc, Int64.ofNat_add, Int64.ofNat_add]

theorem offset_of_none (h : ∀ gap attr, ¬ FirstAttribute rest gap attr) :
    offset width lead text rest = 0 := by
  have hgap : attributeGap? rest = none := by
    rw [Option.eq_none_iff_forall_ne_some]
    intro n hn
    obtain ⟨gap, attr, hfirst⟩ := exists_first_of_attributeGap? hn
    exact h gap attr hfirst
  unfold offset openTag
  dsimp only
  rw [hgap]

end Markup

section Documents
variable {settings : Scan.Settings} {source : Bytes} {placed above between below : List Line}
  {line line' : Line} {before after : List Token} {t u : Token} {stack : List Scope.Mark}

theorem Scan.offset_of_inside
    (hread : tokenize settings { active := .markup } source =
      .ok (above ++ line :: (between ++ line' :: below)))
    (hline : line.tokens = before ++ t :: after) (ht : t.opensMarkup = true)
    (hinside : ∀ x ∈ after ++ between.flatMap Line.tokens, x.endsTag = false)
    (hu : line'.first? = some u) :
    (∃ b tail, t.text = b :: tail ∧ isInert b = false) ∧ line'.text ≠ [] ∧
      (line'.startsVerbatim = false →
        if u.endsTag then u.EndsAt settings.tabWidth
        else u.offset = Markup.offset settings.tabWidth before t.text (after.flatMap Token.text)) := by
  obtain ⟨final, hrun⟩ := exists_linesRun_tag hread
  obtain ⟨start, stop, -, htag, hbelow⟩ := hrun.at
  obtain ⟨start', stop', hbetween, hfurther, -⟩ := hbelow.at
  rw [hline] at htag
  obtain ⟨r, rfl, -, hr, hafter⟩ := htag.at
  rw [List.nil_append, List.append_nil] at hr
  obtain ⟨hhead, hopened⟩ := hr.step.opens ht
  obtain ⟨lead, rest, r', -, rfl, hlead, hv, hfront, hr', hverbatim, -⟩ :=
    hfurther.first InTag.shown hu
  have hkept : r'.before.tagOffset? = some (Markup.offset settings.tabWidth before r.token.text
      (after.flatMap Token.text)) := by
    have hsome : ∀ lead more (r : Reading), r.InTag settings.tabWidth lead more →
        ∃ lead more, r.InTag settings.tabWidth lead more := fun lead more r h => ⟨lead, more, h⟩
    have hchain := ((hafter.chain hsome).append (hbetween.chain hsome)).append (hfront.chain hsome)
    refine hchain.tagOffset? (fun x hx => ?_) hopened
    rcases List.mem_append.1 hx with hx | hx
    · exact hinside x hx
    · exact Token.endsTag_of_isBlank (hlead x hx)
  refine ⟨hhead, hfurther.text_ne_nil InTag.shown hu, fun hplain => ?_⟩
  refine hr'.step.leads ?_ (List.all_eq_true.2 hlead) hv _ hkept
  rw [hr'.ignore, hverbatim, hplain]

theorem Scope.level_of_inside
    (hassign : assign (above ++ line :: (between ++ line' :: below)) = .ok placed)
    (ht : t.dedents = false) (hu : line'.first? = some u)
    (htop : Before (marks (above ++ line :: (between ++ line' :: below)))
      (headMark (above ++ line :: between) u) (markAt above before t :: stack)) :
    ∃ upper lower, placed[above.length]? = some upper ∧
      placed[above.length + 1 + between.length]? = some lower ∧ Placed line upper ∧
      Placed line' lower ∧ lower.offset = u.offset ∧
      (u.dedents = true → u.kind = t.kind → lower.level = upper.level) ∧
      (u.dedents = false → lower.level = upper.level + 1) := by
  obtain ⟨upper, hupper, hplaced⟩ := exists_placed hassign
  have hsplit : above ++ line :: (between ++ line' :: below) =
      above ++ line :: between ++ line' :: below := by simp
  rw [hsplit] at hassign htop
  obtain ⟨lower, hlower, hplaced', hstarts⟩ := starts_of_assign hassign hu
  have hindex : (above ++ line :: between).length = above.length + 1 + between.length := by
    rw [List.length_append, List.length_cons]
    omega
  rw [hindex] at hlower
  obtain ⟨hcloses, hopens⟩ := hstarts.of_top (sorted_marksFrom 0 0 _) htop ht
  have hlevel : placed[(markAt above before t).line]?.map Line.level = some upper.level := by
    change placed[above.length]?.map Line.level = _
    rw [hupper]
    rfl
  rw [hlevel] at hcloses hopens
  exact ⟨upper, lower, hupper, hlower, hplaced, hplaced', hstarts.offset,
    fun hd hkind => (Option.some.inj (hcloses hd hkind)).symm,
    fun hd => (Option.some.inj (hopens hd)).symm⟩

end Documents

/-- The further lines of an opening tag, by the innermost open token in front of them. One that starts
with the bracket of the tag gets the indentation of the tag's line. Any other is indented to the column
of the first attribute, in characters of the trimmed line of the tag, or by one level if no attribute
follows the name of the tag on its line. -/
theorem tag_lines_aligned {settings : Scan.Settings} {source : Bytes}
    {lines placed above between below : List Line} {line line' : Line} {before after : List Token}
    {t u : Token} {stack : List Scope.Mark}
    (hread : tokenize settings { active := .markup } source = .ok lines)
    (hassign : Scope.assign lines = .ok placed) (hwidth : 0 < settings.tabWidth)
    (hlines : lines = above ++ line :: (between ++ line' :: below))
    (hline : line.tokens = before ++ t :: after) (ht : t.opensMarkup = true)
    (hinside : ∀ x ∈ after ++ between.flatMap Line.tokens, x.endsTag = false)
    (hu : line'.first? = some u)
    (htop : Scope.Before (Scope.marks lines) (Scope.headMark (above ++ line :: between) u)
      (Scope.markAt above before t :: stack)) :
    ∃ upper lower, placed[above.length]? = some upper ∧
      placed[above.length + 1 + between.length]? = some lower ∧
      (lower.ignore = false →
        (u.endsTag = true →
          lower.IndentedBy settings.tabWidth (settings.tabWidth.toInt * upper.level.toInt)) ∧
        (u.endsTag = false → u.dedents = false →
          (∀ gap attr, Markup.FirstAttribute (after.flatMap Token.text) gap attr →
            ∃ front tail, trimLeft line.raw = front ++ attr ∧ trimLeft line.raw = upper.text ++ tail ∧
              allBlank tail = true ∧ lower.IndentedBy settings.tabWidth
                (settings.tabWidth.toInt * upper.level.toInt + Utf8.count front)) ∧
          ((∀ gap attr, ¬ Markup.FirstAttribute (after.flatMap Token.text) gap attr) →
            lower.IndentedBy settings.tabWidth
              (settings.tabWidth.toInt * (upper.level.toInt + 1))))) := by
  subst hlines
  have hkind : t.indents = true ∧ t.dedents = false ∧ t.kind = .markup := by
    simpa [Token.opensMarkup, and_assoc] using ht
  obtain ⟨hhead, htext, hlead⟩ := Scan.offset_of_inside hread hline ht hinside hu
  obtain ⟨upper, lower, hupper, hlower, hplaced, hplaced', hoffset, hcloses, hopens⟩ :=
    Scope.level_of_inside hassign hkind.2.1 hu htop
  refine ⟨upper, lower, hupper, hlower, fun hplain => ?_⟩
  have hstart := hlead (hplaced'.ignore.symm.trans hplain)
  have hshown : lower.text ≠ [] := by
    rw [Line.text, hplaced'.raw]
    exact htext
  rw [← hoffset] at hstart
  constructor
  · intro hends
    rw [hends, if_pos rfl] at hstart
    refine Line.indentedBy hwidth hplain hshown ?_
    rw [Int64.ofInt_mul, Int64.ofInt_toInt, Int64.ofInt_toInt]
    rcases hstart with ⟨hd, hk, hzero⟩ | ⟨hd, hback⟩
    · rw [hcloses hd (hk.trans hkind.2.2.symm), hoffset, hzero]
      exact Int64.add_zero _
    · rw [hopens hd, hoffset, hback]
      grind
  · intro hends hd
    rw [hends, if_neg Bool.false_ne_true] at hstart
    have hraw : line.raw = before.flatMap Token.text ++ (t.text ++ after.flatMap Token.text) := by
      rw [Line.raw, hline, List.flatMap_append, List.flatMap_cons]
    constructor
    · intro gap attr hfirst
      obtain ⟨front, hfront, hcolumn⟩ := Markup.offset_of_first hfirst hhead
      rw [← hraw] at hfront
      obtain ⟨tail, htail, hblank⟩ := exists_trimLeft_eq line.raw
      refine ⟨front, tail, hfront, ?_, hblank, Line.indentedBy hwidth hplain hshown ?_⟩
      · rw [htail, Line.text, hplaced.raw]
      · rw [hopens hd, hstart, hcolumn, Int64.ofInt_add, Int64.ofInt_mul, Int64.ofInt_toInt,
          Int64.ofInt_toInt, Int64.ofInt_eq_ofNat]
        grind
    · intro hnone
      refine Line.indentedBy hwidth hplain hshown ?_
      rw [hopens hd, hstart, Markup.offset_of_none hnone, Int64.ofInt_mul, Int64.ofInt_add,
        Int64.ofInt_toInt, Int64.ofInt_toInt]
      exact Int64.add_zero _

namespace Accent

def accent : Token := .numbered 1 (.plain [0xC3, 0xA9] .markup)

def tag : Token := .numbered 1 (.opening (ascii "<br") .markup)

def attr : Token := .numbered 1 (.plain (ascii " x") .markup)

def further : Token := { Token.plain (ascii "y") .markup with offset := 1, line := 2 }

def upper : Line := { number := 1, tokens := [accent, tag, attr] }

def lower : Line := { number := 2, tokens := [further] }

def last : Line := { number := 3, tokens := [.numbered 3 (.closing (ascii "/>") .markup)] }

theorem tag_lines_aligned_accent :
    tokenize {} { active := .markup } ([0xC3, 0xA9] ++ ascii "<br x\ny\n/>") =
        .ok [upper, lower, last] ∧
      ∃ placed upper' lower', Scope.assign [upper, lower, last] = .ok placed ∧
        placed[0]? = some upper' ∧ placed[1]? = some lower' ∧
        lower'.IndentedBy 4 ((4 : Int64).toInt * upper'.level.toInt + 5) := by
  have hread : tokenize {} { active := .markup } ([0xC3, 0xA9] ++ ascii "<br x\ny\n/>") =
      .ok [upper, lower, last] := by
    decide +kernel
  have hassign : Scope.assign [upper, lower, last] =
      .ok (Scope.pass [] [upper, lower, last]).lines := by
    decide +kernel
  have hlines : [upper, lower, last] = [] ++ upper :: ([] ++ lower :: [last]) := rfl
  have htokens : upper.tokens = [accent] ++ tag :: [attr] := rfl
  have htop : Scope.Before (Scope.marks [upper, lower, last]) (Scope.headMark [upper] further)
      [Scope.markAt [] [accent] tag] := by
    have hfront : (Scope.marks [upper, lower, last]).filter
        (·.place < (Scope.headMark [upper] further).place) =
        [⟨0, 0, accent⟩, Scope.markAt [] [accent] tag, ⟨0, 2, attr⟩] := by
      decide +kernel
    unfold Scope.Before
    rw [hfront]
    exact .cons (.opens rfl) (.cons (.opens rfl) (.cons (.opens rfl) (.nil _)))
  have hfirst : Markup.FirstAttribute (ascii " x") (ascii " ") (ascii "x") :=
    ⟨by decide, by decide, by decide +kernel, by decide⟩
  have hplain : ∀ l ∈ (Scope.pass [] [upper, lower, last]).lines[1]?, l.ignore = false := by
    decide +kernel
  obtain ⟨upper', lower', hupper, hlower, hshown⟩ := tag_lines_aligned hread hassign (by decide)
    hlines htokens rfl (by decide) rfl htop
  obtain ⟨front, tail, hfront, -, -, hindent⟩ :=
    ((hshown (hplain lower' hlower)).2 (by decide) rfl).1 _ _ hfirst
  have hcount : Utf8.count front = 5 := by
    have htrim : trimLeft upper.raw = [0xC3, 0xA9] ++ ascii "<br " ++ ascii "x" := by
      decide +kernel
    rw [← List.append_cancel_right (htrim.symm.trans hfront)]
    decide +kernel
  rw [hcount] at hindent
  exact ⟨hread, _, upper', lower', hassign, hupper, hlower, hindent⟩

end Accent

end Reindent
