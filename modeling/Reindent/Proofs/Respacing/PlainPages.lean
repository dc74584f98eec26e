import Reindent.Proofs.Respacing.Documents
import Reindent.Proofs.Scan.RegionStarts

/-! Pages whose lines have only blanks, tabs and carriage returns around them. This white space is the
same to all that look at it. -/
namespace Reindent
open Bytes Pattern Text

/-- A blank, a tab or a byte of a line end. -/
def isPlainBlank (b : UInt8) : Bool := isGap b || b == 13 || b == newline

/-- White space with a line break in it, or at the end of the page, is made of blanks, tabs and line
ends. No character gets longer in lower case. -/
@[mk_iff]
structure PlainPage (source : Bytes) : Prop where
  breaks : ∀ s ∈ source.tails, ∀ m ∈ s.inits, allBlank m = true → newline ∈ m ∨ m = s →
    m.all isPlainBlank = true
  letters : ∀ x ∈ Utf8.decode source, (lowerSymbol x).bytes.length ≤ x.bytes.length

instance : DecidablePred PlainPage :=
  fun source => decidable_of_iff' _ (plainPage_iff source)

private theorem isSpace_of_isPlainBlank {b : UInt8} (h : isPlainBlank b = true) :
    isSpace b = true := by
  simp only [isPlainBlank, isGap, Bool.or_eq_true, beq_iff_eq] at h
  rcases h with ((rfl | rfl) | rfl) | rfl <;> rfl

private theorem length_encode_lower {s : List Symbol}
    (h : ∀ x ∈ s, (lowerSymbol x).bytes.length ≤ x.bytes.length) :
    (Utf8.encode (s.map lowerSymbol)).length ≤ (Utf8.encode s).length := by
  induction s with
  | nil => exact Nat.le_refl _
  | cons x s ih =>
    rw [List.forall_mem_cons] at h
    have hrest := ih h.2
    rw [List.map_cons, Utf8.encode, Utf8.encode, List.flatMap_cons, List.flatMap_cons,
      List.length_append, List.length_append]
    exact Nat.add_le_add h.1 hrest

/-- A comment that does not get longer in lower case is cut in what is visible of it. -/
theorem Question.steady_comment {text : Bytes} (hhead : ∀ b ∈ text.head?, isInert b = false)
    (hlower : (lowercase text).length ≤ text.length) : Question.Steady (.comment text) := by
  intro i hi
  obtain ⟨lead, trail, htext, hlead, htrail⟩ := exists_eq_append_trim text
  have hnil : lead = [] := by
    cases lead with
    | nil => rfl
    | cons x lead =>
      have hx : isInert x = false := hhead x (by rw [htext]; rfl)
      exact absurd (isInert_of_allBlank hlead List.mem_cons_self) (by simp [hx])
  rw [hnil, List.nil_append] at htext
  have hsplit : lowercase text = lowercase (trim text) ++ trail := by
    rw [← lowercase_append_of_blank htrail, ← htext]
  rw [hsplit, find?_append_of_blank (by decide) (by decide) htrail] at hi
  have htag := (prefix_drop_of_find? hi).length_le
  have hpos : 0 < (ascii "</script").length := by decide
  have hlength := congrArg List.length htext
  rw [List.length_drop] at htag
  rw [hsplit, List.length_append] at hlower
  rw [List.length_append] at hlength
  omega

namespace PlainPage
variable {source : Bytes} (h : PlainPage source)
include h

theorem breaksPlainly {s : Bytes} (hs : s <:+ source) : BreaksPlainly s := by
  intro hbreak b hb
  have hsplit : (Utf8.decode s).takeWhile blank ++ (Utf8.decode s).dropWhile blank = Utf8.decode s :=
    List.takeWhile_append_dropWhile
  have hblank : allBlank (leadingBlank s) = true := by
    rw [allBlank_iff, leadingBlank, (Utf8.decode_encode_of_eq_append hsplit.symm).1]
    exact fun x hx => List.mem_takeWhile_imp hx
  have hprefix : leadingBlank s <+: s := by
    refine ⟨Utf8.encode ((Utf8.decode s).dropWhile blank), ?_⟩
    have hjoined := congrArg Utf8.encode hsplit
    rwa [Utf8.encode, List.flatMap_append, Utf8.encode_decode] at hjoined
  have hplain := h.breaks s ((List.mem_tails _ _).2 hs) _ ((List.mem_inits _ _).2 hprefix) hblank
    (Or.inl hbreak)
  exact isSpace_of_isPlainBlank (List.all_eq_true.1 hplain b hb)

theorem endsPlainly {tag : Bytes} (ht : tag <:+ source) : EndsPlainly tag := by
  have hafter : ∀ {start s more : Bytes}, more ∈ after? start s → more <:+ s := by
    intro start s more hmore
    unfold after? at hmore
    split_ifs at hmore
    · exact Option.some.inj hmore ▸ List.drop_suffix _ _
    · exact absurd hmore (by simp)
  have hsign : ∀ s, Template.dropSign s <:+ s := by
    intro s
    unfold Template.dropSign
    split
    · exact List.suffix_cons _ _
    · exact List.suffix_cons _ _
    · exact List.suffix_refl _
  intro inner hinner
  have hinner' := (hsign inner).trans ((hafter hinner).trans ht)
  refine ⟨h.breaksPlainly hinner', fun more hmore => h.breaksPlainly ?_⟩
  exact (hafter hmore).trans ((List.dropWhile_suffix isSpace).trans hinner')

section Line
variable {rest below : Bytes} (hs : rest ++ below <:+ source) (hb : Scan.Whole.Below below)
include hs hb

/-- White space in front of the end of a line is no attribute. -/
theorem attributeGap?_eq_none (hblank : allBlank rest = true) :
    Markup.attributeGap? rest = none := by
  have hplain : ∀ b ∈ rest, isPlainBlank b = true := by
    have hs' := (List.mem_tails _ _).2 hs
    cases below with
    | nil =>
      rw [List.append_nil] at hs'
      exact List.all_eq_true.1 (h.breaks rest hs' rest ((List.mem_inits _ _).2 (List.prefix_refl _))
        hblank (Or.inr rfl))
    | cons b below =>
      obtain rfl : b = newline := hb b rfl
      have hprefix : rest ++ [newline] <+: rest ++ newline :: below := ⟨below, by simp⟩
      have hbreak : allBlank (rest ++ [newline]) = true := by
        rwa [allBlank_append_of_right (by decide)]
      have hall := h.breaks _ hs' _ ((List.mem_inits _ _).2 hprefix) hbreak (Or.inl (by simp))
      exact fun x hx => List.all_eq_true.1 hall x (List.mem_append_left _ hx)
  unfold Markup.attributeGap?
  dsimp only
  cases hdrop : rest.dropWhile isGap with
  | nil => split_ifs <;> rfl
  | cons b more =>
    have hmem : b ∈ rest := (List.dropWhile_suffix isGap).subset (by rw [hdrop]; simp)
    have hgap : isGap b = false := by
      have hhead := List.head?_dropWhile_not isGap rest
      rw [hdrop] at hhead
      simpa using hhead
    have hbreak := hplain b hmem
    rw [isPlainBlank, hgap, Bool.false_or, Bool.or_eq_true, beq_iff_eq, beq_iff_eq] at hbreak
    rcases hbreak with rfl | rfl
    · split_ifs <;> rfl
    · split_ifs <;> rfl

theorem length_lowercase_le (hslash : ascii "//" <+: rest) :
    (lowercase rest).length ≤ rest.length := by
  obtain ⟨front, rfl⟩ := hs
  have hhead : ∀ x ∈ (rest ++ below).head?, Utf8.isTail x = false := by
    obtain ⟨more, rfl⟩ := hslash
    intro x hx
    obtain rfl := Option.some.inj hx
    rfl
  have hend : ∀ x ∈ below.head?, Utf8.isTail x = false := by
    intro x hx
    rw [hb x hx]
    rfl
  have hletters := h.letters
  rw [Utf8.decode_append_of_head hhead, Utf8.decode_append_of_head hend] at hletters
  nth_rewrite 2 [← Utf8.encode_decode rest]
  exact length_encode_lower fun x hx =>
    hletters x (List.mem_append_right _ (List.mem_append_left _ hx))

end Line
end PlainPage

namespace Scan

section Pages
variable {source : Bytes} {width : Int64} {torn : Bool} {below : Bytes} {state : State} {line : Line}
  {rest : Bytes} (h : PlainPage source)
include h

/-- Only the tags of scripts that take several lines are to be feared in a plain page. -/
private theorem steady_stepQuestions (hs : rest ++ below <:+ source) (hb : Whole.Below below)
    (hline : newline ∉ rest) :
    ∀ q ∈ stepQuestions ⟨width, []⟩ torn below state line rest,
      (∀ text, q ≠ .script text) → q.Steady := by
  intro q hq hscript
  cases hsearch : search (state.modes.active.rules state.modes.embedded) none rest with
  | none =>
    rw [stepQuestions_of_none hsearch] at hq
    exact absurd hq List.not_mem_nil
  | some hit =>
    rw [stepQuestions_of_some hsearch] at hq
    obtain ⟨-, rfl⟩ := search_split hsearch
    have hrest : hit.rest ++ below <:+ source := by
      refine List.IsSuffix.trans ?_ hs
      rw [List.append_assoc]
      exact List.suffix_append _ _
    unfold lexemeQuestions at hq
    split at hq
    · obtain ⟨name, -, rfl⟩ := List.mem_map.1 hq
      exact ⟨rfl, fun tag htag => h.endsPlainly (((List.mem_tails _ _).1 htag).trans hrest)⟩
    · obtain rfl := List.mem_singleton.1 hq
      exact h.attributeGap?_eq_none hrest hb
    · split_ifs at hq
      · exact absurd (List.mem_singleton.1 hq) (hscript _)
      · exact absurd hq List.not_mem_nil
    · next hlabel =>
      split_ifs at hq
      · obtain rfl := List.mem_singleton.1 hq
        obtain ⟨-, hnil, hslashes⟩ := ScriptState.rest_of_lineComment hsearch hlabel hline
        rw [hnil, List.append_nil, List.append_assoc] at hs
        have hlower := h.length_lowercase_le ((List.suffix_append _ _).trans hs) hb hslashes
        refine Question.steady_comment ?_ hlower
        obtain ⟨more, hmore⟩ := hslashes
        rw [← hmore]
        simp [ascii, isInert]
      · exact absurd hq List.not_mem_nil
    · exact absurd hq List.not_mem_nil

end Pages

/-- A plain page gives steady answers, unless a tag of a script takes several lines. -/
theorem steady_of_plain {source : Bytes} (h : PlainPage source) (modes : ModeStack)
    (hscript : ∀ text, .script text ∉ questions {} modes source) :
    ∀ q ∈ questions {} modes source, q.Steady := by
  have hasked : ∀ q ∈ questions {} modes source, (∀ text, q ≠ .script text) → q.Steady :=
    forall_questions (fun _ _ => trivial) (fun _ => trivial) trivial
      fun torn below state line rest _ hs hline hb => steady_stepQuestions h hs hb hline
  exact fun q hq => hasked q hq fun text he => hscript text (he ▸ hq)

end Scan
end Reindent
