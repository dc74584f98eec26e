import Mathlib.Data.List.Forall2
import Reindent.Proofs.Respacing.Modes
import Reindent.Proofs.Respacing.Search
import Reindent.Proofs.Scan.Lossless
import Reindent.Proofs.Template

/-! The questions that reading asks about the text around a lexeme. All other decisions are about the
text of the lexeme itself. -/
namespace Reindent
open Bytes Pattern Text

namespace Template

/-- The name of the block that a tag opens if the end tag of that name is ahead. -/
def opens? (blocks : Blocks) (tag : Bytes) : Option Bytes :=
  (tagName? tag).filter fun name =>
    (RawBlock.ofName? name).isNone && !branches.contains name && !isEndTag blocks name &&
      mayOpen name tag

theorem isWord_of_opens? {blocks : Blocks} {tag name : Bytes} (h : opens? blocks tag = some name) :
    name ≠ [] ∧ ∀ b ∈ name, isWord b = true := by
  obtain ⟨hname, -⟩ := Option.filter_eq_some_iff.1 h
  obtain ⟨inner, -, hname⟩ := Option.bind_eq_some_iff.1 hname
  dsimp only at hname
  split_ifs at hname with hempty
  obtain rfl := Option.some.inj hname
  exact ⟨by simpa using hempty, fun b hb => List.mem_takeWhile_imp hb⟩

/-- A tag is read alike in front of two texts, if its end tag is in both of them or in none. -/
theorem readBlock_congr {blocks : Blocks} {tag ahead₁ ahead₂ : Bytes}
    (h : ∀ name, opens? blocks tag = some name →
      (findEndTag blocks name ahead₁).isSome = (findEndTag blocks name ahead₂).isSome) :
    (readBlock blocks [] tag ahead₁).1 = (readBlock blocks [] tag ahead₂).1 ∧
      (readBlock blocks [] tag ahead₁).2.1 = (readBlock blocks [] tag ahead₂).2.1 := by
  unfold readBlock
  cases hname : tagName? tag with
  | none => exact ⟨rfl, rfl⟩
  | some name =>
    dsimp only
    cases hraw : RawBlock.ofName? name with
    | some block => exact ⟨rfl, rfl⟩
    | none =>
      dsimp only
      by_cases hbranch : branches.contains name = true
      · rw [if_pos hbranch, if_pos hbranch]
        exact ⟨rfl, rfl⟩
      by_cases hend : isEndTag blocks name = true
      · rw [if_neg hbranch, if_neg hbranch, if_pos hend, if_pos hend]
        exact ⟨rfl, rfl⟩
      by_cases hopen : mayOpen name tag = true
      · have hopens : opens? blocks tag = some name := by
          unfold opens?
          rw [hname, Option.filter_some_pos]
          simp_all
        have hsearch : ∀ ahead, (Lookahead.hasEnd blocks [] name ahead).1 =
            (findEndTag blocks name ahead).isSome := fun ahead =>
          (Lookahead.hasEnd_of_sound (Lookahead.sound_nil blocks ahead) (List.suffix_refl ahead)
            name).1
        rw [if_neg hbranch, if_neg hbranch, if_neg hend, if_neg hend, if_pos hopen, if_pos hopen,
          hsearch, hsearch, h name hopens]
        exact ⟨rfl, rfl⟩
      · rw [if_neg hbranch, if_neg hbranch, if_neg hend, if_neg hend, if_neg hopen, if_neg hopen]
        exact ⟨rfl, rfl⟩

theorem read_congr {blocks : Blocks} {lexeme : Lexeme} {text ahead₁ ahead₂ : Bytes}
    (h : lexeme = .templateBlock → ∀ name, opens? blocks text = some name →
      (findEndTag blocks name ahead₁).isSome = (findEndTag blocks name ahead₂).isSome) :
    (read blocks [] lexeme text ahead₁).1 = (read blocks [] lexeme text ahead₂).1 ∧
      (read blocks [] lexeme text ahead₁).2.1 = (read blocks [] lexeme text ahead₂).2.1 := by
  unfold read
  split
  · exact readBlock_congr (h rfl)
  · exact ⟨rfl, rfl⟩
  · exact ⟨rfl, rfl⟩
  · exact ⟨rfl, rfl⟩

end Template

namespace Text

private theorem lowerChar_of_isBlank {ch : Char} (h : isBlank ch = true) : lowerChar ch = ch := by
  have hapart : ∀ r ∈ caseRuns, ∀ gap ∈ [(9, 0x20), (0x85, 0xA0), (0x1680, 0x1680),
      (0x2000, 0x205F), (0x3000, 0x3000)], r.high < gap.1 ∨ gap.2 < r.low := by
    decide +kernel
  have hnone : caseRuns.find? (·.holds ch.toNat) = none := by
    rw [List.find?_eq_none]
    intro r hr
    have hgaps := hapart r hr
    simp only [List.forall_mem_cons, List.not_mem_nil, false_implies, implies_true,
      and_true] at hgaps
    simp only [isBlank, Bool.or_eq_true, Bool.and_eq_true, decide_eq_true_eq, beq_iff_eq] at h
    simp only [CaseRun.holds, Bool.and_eq_true, decide_eq_true_eq]
    omega
  unfold lowerChar
  rw [hnone]

theorem lowercase_append_of_blank {s trail : Bytes} (h : allBlank trail = true) :
    lowercase (s ++ trail) = lowercase s ++ trail := by
  have htrail : (Utf8.decode trail).map lowerSymbol = Utf8.decode trail := by
    have hsymbol : ∀ x ∈ Utf8.decode trail, lowerSymbol x = id x := by
      intro x hx
      obtain ⟨ch, rfl, hch⟩ := char_of_blank (allBlank_iff.1 h x hx)
      rw [lowerSymbol, lowerChar_of_isBlank hch, id]
    rw [List.map_congr_left hsymbol, List.map_id]
  have hencode : ∀ p q, Utf8.encode (p ++ q) = Utf8.encode p ++ Utf8.encode q :=
    fun p q => List.flatMap_append
  unfold lowercase
  rw [decode_append_allBlank h, List.map_append, htrail, hencode, Utf8.encode_decode]

end Text

private theorem length_trim_append_le {s trail : Bytes} (h : allBlank trail = true) :
    (trim (s ++ trail)).length ≤ s.length := by
  have htrim := trim_append_append (m := s) (show allBlank [] = true from rfl) h
  obtain ⟨lead, behind, hs, -, -⟩ := exists_eq_append_trim s
  rw [List.nil_append] at htrim
  rw [htrim]
  nth_rewrite 2 [hs]
  simp only [List.length_append]
  omega

private theorem find?_eq_none {x : UInt8} {part trail : Bytes} (hx : ¬ isInert x = true)
    (ht : ∀ b ∈ trail, isInert b = true) : find? (x :: part) trail = none := by
  induction trail with
  | nil => rfl
  | cons b trail ih =>
    have hne : x ≠ b := by
      rintro rfl
      exact hx (ht x List.mem_cons_self)
    rw [find?, if_neg, ih fun y hy => ht y (List.mem_cons_of_mem _ hy)]
    · rfl
    · simp [hne]

theorem Bytes.find?_append_of_blank {part trail : Bytes} (hne : part ≠ [])
    (hp : part.any isInert = false) (ht : allBlank trail = true) (s : Bytes) :
    find? part (s ++ trail) = find? part s := by
  induction s with
  | nil =>
    obtain ⟨x, part, rfl⟩ := List.exists_cons_of_ne_nil hne
    rw [List.nil_append, find?_eq_none (List.any_eq_false.1 hp x List.mem_cons_self)]
    · rfl
    · exact fun b hb => isInert_of_allBlank ht hb
  | cons b s ih =>
    have hprefix : part.isPrefixOf (b :: s ++ trail) = part.isPrefixOf (b :: s) := by
      rw [Bool.eq_iff_iff, List.isPrefixOf_iff_prefix, List.isPrefixOf_iff_prefix,
        prefix_append_iff hp ht]
    rw [List.cons_append] at *
    rw [find?, find?, hprefix, ih]

namespace ScriptState

theorem startsText_formatOff {text trail : Bytes} (ht : allBlank trail = true) :
    formatOff.startsText (text ++ trail) = formatOff.startsText text := by
  unfold startsText
  rw [match?_append (bare_formatOff.ignores ht), Option.isSome_map]

/-- A line comment with white space behind it is taken as a whole as without, or cut at the same
place, unless the cut lies in the white space. -/
theorem commentLength_append {embedded : Bool} {text trail : Bytes} (ht : allBlank trail = true)
    (h : trail = [] ∨ (embedded = true → ∀ i ∈ find? (ascii "</script") (lowercase (text ++ trail)),
      i ≤ (trim (text ++ trail)).length)) :
    (commentLength embedded (text ++ trail) = .ok (text ++ trail).length ∧
      commentLength embedded text = .ok text.length) ∨
    (∃ n ≤ text.length, commentLength embedded (text ++ trail) = .ok n ∧
      commentLength embedded text = .ok n) ∨
    (commentLength embedded (text ++ trail) = .error {} ∧
      commentLength embedded text = .error {}) := by
  have hfind : find? (ascii "</script") (lowercase (text ++ trail)) =
      find? (ascii "</script") (lowercase text) := by
    rw [lowercase_append_of_blank ht, find?_append_of_blank (by decide) (by decide) ht]
  unfold commentLength
  rw [startsText_formatOff ht, hfind]
  rw [hfind] at h
  generalize find? (ascii "</script") (lowercase text) = found at h ⊢
  by_cases hwhole : (!embedded || formatOff.startsText text) = true
  · rw [if_pos hwhole, if_pos hwhole]
    exact Or.inl ⟨rfl, rfl⟩
  rw [if_neg hwhole, if_neg hwhole]
  cases found with
  | none => exact Or.inl ⟨rfl, rfl⟩
  | some i =>
    cases i with
    | zero => exact Or.inl ⟨rfl, rfl⟩
    | succ i =>
      dsimp only
      by_cases hlong : i + 1 ≤ text.length
      · have hlong' : i + 1 ≤ (text ++ trail).length := by
          rw [List.length_append]
          omega
        rw [if_pos hlong, if_pos hlong']
        exact Or.inr (Or.inl ⟨i + 1, hlong, rfl, rfl⟩)
      · rcases h with rfl | h
        · rw [List.append_nil, if_neg hlong]
          exact Or.inr (Or.inr ⟨rfl, rfl⟩)
        · have hembedded : embedded = true := by
            rw [Bool.or_eq_true, not_or] at hwhole
            simpa using hwhole.1
          have hcut := h hembedded (i + 1) rfl
          have htrim := length_trim_append_le (s := text) ht
          omega

end ScriptState

namespace Markup

theorem attributeGap?_eq_some {rest : Bytes} {n : Nat} (h : attributeGap? rest = some n) :
    n = (rest.takeWhile isGap).length ∧ rest.dropWhile isGap ≠ [] := by
  unfold attributeGap? at h
  dsimp only at h
  split_ifs at h
  split at h
  · exact absurd h (by simp)
  · exact absurd h (by simp)
  · exact absurd h (by simp)
  · exact absurd h (by simp)
  · exact absurd h (by simp)
  · next hne _ _ _ _ => exact ⟨(Option.some.inj h).symm, hne⟩

private theorem attributeGap?_of_gap {gap rest : Bytes} {b : UInt8}
    (hgap : ∀ x ∈ gap, isGap x = true) (hb : isGap b = false) :
    attributeGap? (gap ++ b :: rest) =
      if gap = [] ∨ b ∈ [10, 13, 62] ∨ b = 47 ∧ rest.head? = some 62 then none
      else some gap.length := by
  have htake : (gap ++ b :: rest).takeWhile isGap = gap := by
    rw [List.takeWhile_append_of_pos hgap, List.takeWhile_cons_of_neg (by simp [hb]),
      List.append_nil]
  have hdrop : (gap ++ b :: rest).dropWhile isGap = b :: rest := by
    rw [List.dropWhile_append_of_pos hgap, List.dropWhile_cons_of_neg (by simp [hb])]
  unfold attributeGap?
  rw [htake, hdrop]
  dsimp only
  by_cases hnil : gap = []
  · rw [if_pos (List.isEmpty_iff.2 hnil), if_pos (Or.inl hnil)]
  · rw [if_neg fun h => hnil (List.isEmpty_iff.1 h)]
    split <;> simp_all [List.head?_eq_some_iff]

/-- The first attribute stands in the same place with white space behind the line, if that is not taken
for an attribute. -/
theorem attributeGap?_append {rest trail : Bytes} (ht : allBlank trail = true)
    (h : allBlank (rest ++ trail) = true → attributeGap? (rest ++ trail) = none) :
    attributeGap? (rest ++ trail) = attributeGap? rest := by
  have hsplit := List.takeWhile_append_dropWhile (p := isGap) (l := rest)
  have hgap : ∀ x ∈ rest.takeWhile isGap, isGap x = true := fun x hx => List.mem_takeWhile_imp hx
  cases hdrop : rest.dropWhile isGap with
  | nil =>
    rw [hdrop, List.append_nil] at hsplit
    rw [h (by rw [allBlank_append_of_right ht, allBlank_of_isGap (by rwa [← hsplit])])]
    unfold attributeGap?
    rw [hdrop]
    dsimp only
    split_ifs
    · rfl
    · rfl
  | cons b more =>
    have hb : isGap b = false := by
      have hhead := List.head?_dropWhile_not isGap rest
      rw [hdrop] at hhead
      simpa using hhead
    have hslash : (more ++ trail).head? = some 62 ↔ more.head? = some 62 := by
      cases more with
      | cons c more => rfl
      | nil =>
        refine ⟨fun hhead => ?_, fun hhead => absurd hhead (by simp)⟩
        exact absurd (isInert_of_allBlank ht (List.mem_of_mem_head? hhead)) (by decide)
    rw [← hsplit, hdrop, List.append_assoc, List.cons_append, attributeGap?_of_gap hgap hb,
      attributeGap?_of_gap hgap hb]
    simp only [hslash]

end Markup
def Text.leadingBlank (s : Bytes) : Bytes := Utf8.encode ((Utf8.decode s).takeWhile blank)

/-- The white space that a text starts with is white space to the search for end tags as well, if there
is a line break in it. -/
def BreaksPlainly (s : Bytes) : Prop :=
  newline ∈ leadingBlank s → ∀ b ∈ leadingBlank s, isSpace b = true

instance (s : Bytes) : Decidable (BreaksPlainly s) :=
  inferInstanceAs (Decidable (_ → _))

/-- In a tag that may be an end tag, the search steps over all white space with a line break in it. -/
def EndsPlainly (tag : Bytes) : Prop :=
  ∀ inner ∈ after? (ascii "\x7b%") tag, BreaksPlainly (Template.dropSign inner) ∧
    ∀ more ∈ after? (ascii "end") ((Template.dropSign inner).dropWhile isSpace), BreaksPlainly more

instance (tag : Bytes) : Decidable (EndsPlainly tag) :=
  inferInstanceAs (Decidable (∀ inner ∈ _, _ ∧ _))

/-- What is asked about the text around a lexeme: whether the end tag of a block, which may have a name
of its own, is ahead; whether an attribute stands behind the name of a tag on its line; whether the tag
of a script over several lines says that the script holds markup; and where a comment is cut. -/
inductive Question where
  | endTag (own ahead : Bytes)
  | attributeGap (rest : Bytes)
  | script (source : Bytes)
  | comment (text : Bytes)
  deriving DecidableEq, Repr

namespace Question

/-- The answer does not depend on the white space around lines. -/
def Steady : Question → Prop
  | .endTag own ahead => own = [] ∧ ∀ tag ∈ ahead.tails, EndsPlainly tag
  | .attributeGap rest => allBlank rest = true → Markup.attributeGap? rest = none
  | .script source => ∀ b ∈ ascii "txhn", ¬ ascii "text/" ++ [b] <:+: (visible source).map toLower
  | .comment text => ∀ i ∈ find? (ascii "</script") (lowercase text), i ≤ (trim text).length

instance : DecidablePred Steady
  | .endTag .. => inferInstanceAs (Decidable (_ ∧ _))
  | .attributeGap _ => inferInstanceAs (Decidable (_ → _))
  | .script _ => inferInstanceAs (Decidable (∀ b ∈ _, _))
  | .comment _ => inferInstanceAs (Decidable (∀ i ∈ _, _))

end Question

namespace Scan

/-- The questions about a lexeme, in a line at whose start a tag of a script was open or not. -/
def lexemeQuestions (torn : Bool) (blocks : Blocks) (below : Bytes) (modes : ModeStack)
    (lexeme : Lexeme) (text rest : Bytes) : List Question :=
  match modes.active, lexeme with
  | _, .templateBlock =>
    (Template.opens? blocks text).toList.map fun name =>
      .endTag (blocks.endOf name) (rest ++ below)
  | .markup, .tagStart => [.attributeGap rest]
  | .tag o, .tagEnd => if torn && o.isScript then [.script (o.source ++ text)] else []
  | .script _, .lineComment => if modes.embedded then [.comment text] else []
  | _, _ => []

def stepQuestions (settings : Settings) (torn : Bool) (below : Bytes) (state : State) (line : Line)
    (rest : Bytes) : List Question :=
  match search (state.modes.active.rules state.modes.embedded) none rest with
  | none => []
  | some hit =>
    let state := (readGap settings state line hit.skipped (hit.matched ++ hit.rest)).2
    lexemeQuestions torn settings.blocks below state.modes hit.label hit.matched hit.rest

def lineQuestions (settings : Settings) (torn : Bool) (below : Bytes) (state : State) (line : Line)
    (rest : Bytes) : List Question :=
  stepQuestions settings torn below state line rest ++
    match h : step settings below state line rest with
    | .next state line rest' =>
      have : rest'.length < rest.length := length_lt_of_step h
      lineQuestions settings torn below state line rest'
    | .finished .. => []
    | .failed .. => []
termination_by rest.length

/-- The questions about line after line, up to the first that cannot be read. -/
def linesQuestions (settings : Settings) : State → Int64 → List (Bytes × Bytes) → List Question
  | _, _, [] => []
  | state, number, (text, below) :: rest =>
    lineQuestions settings state.modes.inScriptTag below state { number } text ++
      match readLine settings below state { number } text with
      | (state, .ok _) => linesQuestions settings state (number + 1) rest
      | (_, .error _) => []

/-- All that is asked about the text around the lexemes of a document. -/
def questions (settings : Settings) (modes : ModeStack) (source : Bytes) : List Question :=
  linesQuestions settings { modes } 1 (linesBelow source)

theorem lineQuestions_of_next {settings : Settings} {torn : Bool} {below : Bytes}
    {state state' : State} {line line' : Line} {rest rest' : Bytes}
    (h : step settings below state line rest = .next state' line' rest') :
    lineQuestions settings torn below state line rest =
      stepQuestions settings torn below state line rest ++
        lineQuestions settings torn below state' line' rest' := by
  nth_rewrite 1 [lineQuestions]
  split <;> simp_all

theorem lineQuestions_of_finished {settings : Settings} {torn : Bool} {below : Bytes}
    {state state' : State} {line line' : Line} {rest : Bytes}
    (h : step settings below state line rest = .finished state' line') :
    lineQuestions settings torn below state line rest =
      stepQuestions settings torn below state line rest := by
  rw [lineQuestions]
  split <;> simp_all

theorem lineQuestions_of_failed {settings : Settings} {torn : Bool} {below : Bytes}
    {state state' : State} {line : Line} {rest : Bytes} {overrun : Overrun}
    (h : step settings below state line rest = .failed state' overrun) :
    lineQuestions settings torn below state line rest =
      stepQuestions settings torn below state line rest := by
  rw [lineQuestions]
  split <;> simp_all

theorem mem_lineQuestions_of_step {settings : Settings} {torn : Bool} {below : Bytes}
    {state : State} {line : Line} {rest : Bytes} {q : Question}
    (h : q ∈ stepQuestions settings torn below state line rest) :
    q ∈ lineQuestions settings torn below state line rest := by
  rw [lineQuestions]
  exact List.mem_append_left _ h

/-- In the same text the same is asked, whatever the tab width. -/
theorem lexemeQuestions_of_same {c : Contrast} (hc : c.same) {torn : Bool}
    {modes₁ modes₂ : ModeStack} (h : modes₁.Like c torn modes₂) (blocks : Blocks) (below : Bytes)
    (lexeme : Lexeme) (text rest : Bytes) :
    lexemeQuestions torn blocks below modes₁ lexeme text rest =
      lexemeQuestions torn blocks below modes₂ lexeme text rest := by
  have hactive := h.active
  unfold lexemeQuestions
  rw [h.embedded]
  generalize modes₁.active = m₁ at hactive
  generalize modes₂.active = m₂ at hactive
  cases hactive with
  | @tag o₁ o₂ ho =>
    cases lexeme with
    | tagEnd =>
      dsimp only
      rw [← ho.isScript]
      split_ifs with hscript
      · rw [ho.whole (Or.inl hc) (Bool.and_eq_true_iff.1 hscript).2]
      · rfl
    | _ => rfl
  | script _ => cases lexeme <;> rfl
  | _ => rfl

end Scan
end Reindent
