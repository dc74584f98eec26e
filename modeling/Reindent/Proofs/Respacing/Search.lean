import Reindent.Proofs.Pattern.Preferred
import Reindent.Proofs.Rules

/-! The lexemes of a line and the white space around it. No lexeme starts with white space, and only
two can end with it: a line comment, and an escape at the end of the line. -/
namespace Reindent
open Bytes Pattern Text

theorem isWord_of_isInert {b : UInt8} (hb : isInert b = true) : isWord b = false := by
  simp only [isInert, isWord, isLetter, isUpper, isLower, isDigit, Bool.or_eq_true,
    Bool.and_eq_true, decide_eq_true_eq, beq_iff_eq, Bool.or_eq_false_iff, Bool.and_eq_false_iff,
    decide_eq_false_iff_not, UInt8.le_iff_toNat_le, ← UInt8.toNat_inj, UInt8.toNat_ofNat,
    beq_eq_false_iff_ne, ne_eq] at *
  omega

private theorem isLetter_of_isInert {b : UInt8} (hb : isInert b = true) : isLetter b = false := by
  have hw := isWord_of_isInert hb
  simp only [isWord, Bool.or_eq_false_iff] at hw
  exact hw.1.1

private theorem ne_of_isInert {b c : UInt8} (hb : isInert b = true) (hc : isInert c = false) :
    b ≠ c := by
  rintro rfl
  rw [hb] at hc
  exact absurd hc (by simp)

/-- A match does not start or end with white space, and what follows has no influence on it. -/
structure Pattern.Bare (p : Pattern) : Prop where
  start : ∀ b, isInert b = true → p.mayStart b = false
  finish : ∀ b, isInert b = true → p.mayEnd b = false
  settles : ∀ next, p.settles next = true

theorem Pattern.Bare.ignores {p : Pattern} (h : p.Bare) {trail : Bytes}
    (ht : allBlank trail = true) : p.Ignores trail := by
  apply ignores_of_mayEnd (h.settles _)
  · rw [Option.any_eq_false]
    intro b hb
    rw [isWord_of_isInert (isInert_of_allBlank ht (List.mem_of_mem_head? hb))]
  · exact fun b hb => h.finish b (isInert_of_allBlank ht hb)

private theorem bare_markup : ∀ r ∈ Rules.template ++ Rules.strings ++ Rules.brackets ++
    Markup.tags ++ OpenTag.parts ++ Markup.endTagRules, r.2.Bare := by
  intro r hr
  simp only [Rules.template, Rules.strings, Rules.brackets, Markup.tags, OpenTag.parts,
    Markup.endTagRules, List.mem_append, List.mem_cons, List.not_mem_nil, or_false, or_assoc] at hr
  rcases hr with rfl | rfl | rfl | rfl | rfl | rfl | rfl | rfl | rfl | rfl | rfl | rfl | rfl | rfl |
    rfl | rfl | rfl | rfl
  all_goals
    refine ⟨fun b hb => ?_, fun b hb => ?_, fun _ => rfl⟩
    all_goals
      simp [literal, ascii, word, byte, oneOf, mayStart, mayEnd, nullable, HAppend.hAppend,
        Append.append, Rules.escapedString, Markup.name, Markup.nameTail, ne_of_isInert hb, isInert,
        isWord_of_isInert hb, isLetter_of_isInert hb]

private theorem bare_code : ∀ r ∈ StyleState.comments ++ StyleState.closer ++ StyleState.marks ++
    ScriptState.backtick ++ ScriptState.closer ++ ScriptState.words, r.2.Bare := by
  intro r hr
  simp only [StyleState.comments, StyleState.closer, StyleState.marks, ScriptState.backtick,
    ScriptState.closer, ScriptState.words, List.mem_append, List.mem_cons, List.not_mem_nil,
    or_false, or_assoc] at hr
  rcases hr with rfl | rfl | rfl | rfl | rfl | rfl | rfl | rfl | rfl | rfl | rfl
  all_goals
    refine ⟨fun b hb => ?_, fun b hb => ?_, fun _ => rfl⟩
    all_goals
      simp [literal, ascii, word, byte, mayStart, mayEnd, nullable, HAppend.hAppend, Append.append,
        Rules.closing, ne_of_isInert hb, isInert]

private theorem bare_finish (region : Region) : region.finish.Bare := by
  refine ⟨fun b hb => ?_, fun b hb => ?_, fun next => ?_⟩
  · cases region <;>
      simp [Region.finish, literal, ascii, word, byte, mayStart, nullable, HAppend.hAppend,
        Append.append, Rules.closing, ne_of_isInert hb, isInert]
  · cases region <;>
      simp [Region.finish, literal, ascii, word, byte, mayEnd, nullable, HAppend.hAppend,
        Append.append, Rules.closing, ne_of_isInert hb, isInert]
  · cases region with
    | block tag => cases tag <;> rfl
    | element name => cases name <;> rfl
    | _ => rfl

namespace ScriptState

def lineComment : Pattern := .literal "//" ++ .toLineEnd

/-- The rules of a script behind that of line comments. -/
def laterRules (embedded : Bool) : Rules :=
  (.commentStart, .literal "/*") :: (Rules.strings ++ backtick ++ (if embedded then closer else []) ++
    words ++ Rules.brackets)

theorem bare_formatOff : formatOff.Bare := by
  refine ⟨fun b hb => ?_, fun b hb => ?_, fun _ => rfl⟩
  all_goals
    simp [formatOff, literal, ascii, word, byte, mayStart, mayEnd, nullable, HAppend.hAppend,
      Append.append, ne_of_isInert hb, isInert]

theorem rules_eq (embedded : Bool) :
    rules embedded = Rules.template ++ (.lineComment, lineComment) :: laterRules embedded := by
  unfold rules comments laterRules
  simp only [List.append_assoc, List.cons_append, List.nil_append]
  rfl

end ScriptState

/-- All rules are bare of white space, but for the line comments of scripts and the escapes of
template literals. -/
theorem Mode.rules_cases (mode : Mode) (embedded : Bool) :
    (∀ r ∈ mode.rules embedded, r.2.Bare) ∨
    (∃ s, mode = .script s ∧
      (∀ r ∈ Rules.template, r.2.Bare) ∧ ∀ r ∈ ScriptState.laterRules embedded, r.2.Bare) ∨
    mode = .verbatim .templateLiteral := by
  have hmarkup := bare_markup
  have hcode := bare_code
  simp only [List.mem_append] at hmarkup hcode
  cases mode with
  | text =>
    left
    intro r hr
    have hmem : r ∈ Rules.template := hr
    grind
  | markup =>
    left
    intro r hr
    have hmem : r ∈ Markup.rules := hr
    simp only [Markup.rules, List.mem_append] at hmem
    grind
  | tag o =>
    left
    intro r hr
    have hmem : r ∈ OpenTag.rules := hr
    simp only [OpenTag.rules, List.mem_append] at hmem
    grind
  | endTag =>
    left
    intro r hr
    have hmem : r ∈ Markup.endTagRules := hr
    grind
  | style s =>
    left
    intro r hr
    have hmem : r ∈ StyleState.rules embedded := hr
    simp only [StyleState.rules, List.mem_append] at hmem
    grind
  | script s =>
    right
    left
    refine ⟨s, rfl, fun r hr => hmarkup r (by simp [hr]), fun r hr => ?_⟩
    have hstart : (.commentStart, .literal "/*") ∈ StyleState.comments := by
      simp [StyleState.comments]
    simp only [ScriptState.laterRules, List.mem_append, List.mem_cons] at hr
    grind
  | verbatim region =>
    by_cases hregion : region = .templateLiteral
    · rw [hregion]
      exact Or.inr (Or.inr rfl)
    · left
      intro r hr
      have hmem : r ∈ region.rules := hr
      have hfinish : r.2 = region.finish := by
        unfold Region.rules at hmem
        grind
      rw [hfinish]
      exact bare_finish region

/-- No rule starts with white space. -/
theorem Mode.mayStart_rules (mode : Mode) (embedded : Bool) {b : UInt8} (hb : isInert b = true) :
    ∀ r ∈ mode.rules embedded, r.2.mayStart b = false := by
  intro r hr
  rcases mode.rules_cases embedded with hbare | ⟨s, rfl, htemplate, hlater⟩ | rfl
  · exact (hbare r hr).start b hb
  · have hmem : r ∈ ScriptState.rules embedded := hr
    rw [ScriptState.rules_eq, List.mem_append, List.mem_cons] at hmem
    rcases hmem with hmem | rfl | hmem
    · exact (htemplate r hmem).start b hb
    · simp [ScriptState.lineComment, literal, ascii, word, byte, mayStart, nullable,
        HAppend.hAppend, Append.append, ne_of_isInert hb, isInert]
    · exact (hlater r hmem).start b hb
  · have hmem : r ∈ Region.rules .templateLiteral := hr
    simp only [Region.rules, List.mem_cons, List.not_mem_nil, or_false] at hmem
    rcases hmem with rfl | rfl
    · simp [byte, mayStart, nullable, HAppend.hAppend, Append.append, ne_of_isInert hb, isInert]
    · exact (bare_finish .templateLiteral).start b hb

/-- White space behind a text does not complete a visible word. -/
theorem prefix_append_iff {w s trail : Bytes} (hw : w.any isInert = false)
    (ht : allBlank trail = true) : w <+: s ++ trail ↔ w <+: s := by
  constructor
  · rintro ⟨more, he⟩
    rcases List.append_eq_append_iff.1 he with ⟨v, rfl, -⟩ | ⟨v, rfl, ht'⟩
    · exact ⟨v, rfl⟩
    · cases v with
      | nil => simp
      | cons b v =>
        have hb : isInert b = true := isInert_of_allBlank ht (by rw [ht']; simp)
        exact absurd hb (List.any_eq_false.1 hw b (by simp))
  · exact fun h => h.trans (List.prefix_append s trail)

namespace ScriptState

theorem match?_lineComment {s : Bytes} (hs : newline ∉ s) (before : Option UInt8) :
    lineComment.match? before s = if ascii "//" <+: s then some ⟨s.reverse, []⟩ else none := by
  split_ifs with h
  · obtain ⟨rest, rfl⟩ := h
    have hword : Prefers before (.literal "//") ⟨[], ascii "//" ++ rest⟩
        ⟨(ascii "//").reverse ++ [], rest⟩ := prefers_word (ascii "//")
    have hrun : Prefers before .toLineEnd ⟨(ascii "//").reverse ++ [], rest ++ []⟩
        ⟨rest.reverse ++ ((ascii "//").reverse ++ []), []⟩ := by
      apply prefers_run
      · intro b hb
        have hne : b ≠ newline := fun h => hs (List.mem_append_right _ (h ▸ hb))
        simpa [inLine, except] using hne
      · simp
    rw [List.append_nil rest] at hrun
    have hmatch : lineComment.match? before (ascii "//" ++ rest) = _ :=
      (hword.seq hrun).match? (by simp [ascii])
    rw [hmatch, List.append_nil, ← List.reverse_append]
  · exact (Fails.seq (fails_word h)).match?

end ScriptState

/-- Two picks at one place of a line, with and without the white space behind the line. They differ
if the pick takes that white space: all of it in a comment, or a part of it in an escape. -/
inductive Picked (mode : Mode) (trail s : Bytes) :
    Option (Lexeme × Span) → Option (Lexeme × Span) → Prop where
  | same (r : Option (Lexeme × Span)) :
    Picked mode trail s (r.map fun r => (r.1, r.2.extend trail)) r
  | comment (state : ScriptState) (hmode : mode = .script state) :
    Picked mode trail s (some (.lineComment, ⟨(s ++ trail).reverse, []⟩))
      (some (.lineComment, ⟨s.reverse, []⟩))
  | escape (taken rest : Bytes) (hmode : mode = .verbatim .templateLiteral) (hs : s = [92])
    (ht : trail = taken ++ rest) :
    Picked mode trail s (some (.escape, ⟨(92 :: taken).reverse, rest⟩)) none

private theorem picked_script (state : ScriptState) {embedded : Bool} {s trail : Bytes}
    (hs : newline ∉ s ++ trail) (ht : allBlank trail = true) (before : Option UInt8)
    (htemplate : ∀ r ∈ Rules.template, r.2.Bare)
    (hlater : ∀ r ∈ ScriptState.laterRules embedded, r.2.Bare) :
    Picked (.script state) trail s (pick? (ScriptState.rules embedded) before (s ++ trail))
      (pick? (ScriptState.rules embedded) before s) := by
  have hfront := pick?_append (fun r hr => (htemplate r hr).ignores ht) before s
  have hback := pick?_append (fun r hr => (hlater r hr).ignores ht) before s
  have hprefix : ascii "//" <+: s ++ trail ↔ ascii "//" <+: s := prefix_append_iff (by decide) ht
  have hpick : ∀ text, newline ∉ text → pick? (ScriptState.rules embedded) before text =
      (pick? Rules.template before text).or (if ascii "//" <+: text then
        some (.lineComment, ⟨text.reverse, []⟩) else
          pick? (ScriptState.laterRules embedded) before text) := by
    intro text htext
    rw [ScriptState.rules_eq]
    unfold pick?
    rw [List.findSome?_append, List.findSome?_cons, ScriptState.match?_lineComment htext]
    split_ifs
    · rfl
    · rfl
  have hns : newline ∉ s := fun h => hs (List.mem_append_left _ h)
  rw [hpick _ hs, hpick _ hns, hfront]
  cases pick? Rules.template before s with
  | some r => exact .same (some r)
  | none =>
    rw [Option.map_none, Option.none_or, Option.none_or, if_congr hprefix rfl rfl]
    split_ifs
    · exact .comment state rfl
    · rw [hback]
      exact .same _

namespace Pattern

/-- Matches that start inside the text are the same with `more` behind it. -/
private def IgnoresInside (p : Pattern) (more : Bytes) : Prop :=
  ∀ before (s : Span), s.rest ≠ [] →
    p.ends before (s.extend more) = (p.ends before s).map (·.extend more)

private theorem inside_one (accepts : UInt8 → Bool) (more : Bytes) :
    (Pattern.one accepts).IgnoresInside more := by
  intro before s hs
  obtain ⟨taken, rest⟩ := s
  obtain ⟨b, rest, rfl⟩ := List.exists_cons_of_ne_nil hs
  rw [Span.extend, ends, ends]
  dsimp only [List.cons_append]
  split_ifs
  · rfl
  · rfl

private theorem IgnoresInside.seq {p q : Pattern} {more : Bytes} (hp : p.IgnoresInside more)
    (hq : q.Ignores more) : (p ++ q).IgnoresInside more := by
  intro before s hs
  change (Pattern.seq p q).ends before _ = ((Pattern.seq p q).ends before s).map _
  rw [ends, ends, hp before s hs, List.flatMap_map, List.map_flatMap]
  exact List.flatMap_congr fun e _ => hq before e

private theorem IgnoresInside.either {p q : Pattern} {more : Bytes} (hp : p.IgnoresInside more)
    (hq : q.IgnoresInside more) : (Pattern.either p q).IgnoresInside more := by
  intro before s hs
  rw [ends, ends, hp before s hs, hq before s hs, List.map_append]

private theorem IgnoresInside.avoid {p q : Pattern} {more : Bytes} (hp : p.IgnoresInside more)
    (hq : q.IgnoresInside more) : (Pattern.avoid p ++ q).IgnoresInside more := by
  intro before s hs
  change (Pattern.seq (.avoid p) q).ends before _ = ((Pattern.seq (.avoid p) q).ends before s).map _
  rw [ends, ends, ends, ends, hp before s hs, List.isEmpty_map]
  split_ifs
  · rw [List.flatMap_singleton, List.flatMap_singleton, hq before s hs]
  · rfl

/-- White space does not start inside a character. -/
private theorem ignores_between {low high : UInt8} (hlow : 0x80 ≤ low) (hhigh : high ≤ 0xBF)
    {trail : Bytes} (ht : allBlank trail = true) : (between low high).Ignores trail := by
  apply ignores_of_mayTake rfl
  · rw [Option.any_eq_false]
    intro b hb
    rw [isWord_of_isInert (isInert_of_allBlank ht (List.mem_of_mem_head? hb))]
  · intro b hb
    have htail := isTail_head_of_allBlank ht b hb
    simp only [between, mayTake, Utf8.isTail, Bool.and_eq_false_iff, decide_eq_false_iff_not,
      UInt8.le_iff_toNat_le, UInt8.lt_iff_toNat_lt, UInt8.toNat_ofNat] at *
    omega

private theorem inside_wideChar {trail : Bytes} (ht : allBlank trail = true) :
    wideChar.IgnoresInside trail := by
  have htail : (between 0x80 0xBF).Ignores trail := ignores_between (by decide) (by decide) ht
  have hfirst : ∀ low high, (between low high).IgnoresInside trail := fun _ _ => inside_one _ trail
  have hbyte : ∀ b, (byte b).IgnoresInside trail := fun _ => inside_one _ trail
  have hnarrow : ∀ low high : UInt8, 0x80 ≤ low → high ≤ 0xBF → (between low high).Ignores trail :=
    fun _ _ hlow hhigh => ignores_between hlow hhigh ht
  refine .either ((hfirst _ _).seq htail) (.either ?_ (.either ?_ (.either ?_ (.either ?_
    (.either ?_ (.either ?_ ?_))))))
  · exact ((hbyte _).seq (hnarrow _ _ (by decide) (by decide))).seq htail
  · exact ((hfirst _ _).seq htail).seq htail
  · exact ((hbyte _).seq (hnarrow _ _ (by decide) (by decide))).seq htail
  · exact ((hfirst _ _).seq htail).seq htail
  · exact (((hbyte _).seq (hnarrow _ _ (by decide) (by decide))).seq htail).seq htail
  · exact (((hfirst _ _).seq htail).seq htail).seq htail
  · exact (((hbyte _).seq (hnarrow _ _ (by decide) (by decide))).seq htail).seq htail

private theorem inside_anyChar {trail : Bytes} (ht : allBlank trail = true) :
    anyChar.IgnoresInside trail :=
  .either (inside_wideChar ht) ((inside_wideChar ht).avoid (inside_one _ trail))

/-- An escape is the same with white space behind the text, unless it stands at the end. -/
private theorem match?_escape_append {b : UInt8} {rest trail : Bytes} (h : b = 92 → rest ≠ [])
    (ht : allBlank trail = true) (before : Option UInt8) :
    (byte 92 ++ anyChar).match? before (b :: rest ++ trail) =
      ((byte 92 ++ anyChar).match? before (b :: rest)).map (·.extend trail) := by
  have hends : (byte 92 ++ anyChar).ends before ((⟨[], b :: rest⟩ : Span).extend trail) =
      ((byte 92 ++ anyChar).ends before ⟨[], b :: rest⟩).map (·.extend trail) := by
    have hbyte : (byte 92).ends before ((⟨[], b :: rest⟩ : Span).extend trail) =
        ((byte 92).ends before ⟨[], b :: rest⟩).map (·.extend trail) :=
      inside_one _ trail before ⟨[], b :: rest⟩ (by simp)
    change (Pattern.seq (byte 92) anyChar).ends before _ = ((Pattern.seq _ _).ends before _).map _
    rw [ends, ends, hbyte, List.flatMap_map, List.map_flatMap]
    refine List.flatMap_congr fun e he => inside_anyChar ht before e ?_
    rw [byte, ends] at he
    dsimp only at he
    split_ifs at he with hb
    · obtain rfl := List.mem_singleton.1 he
      exact h (by simpa using hb)
    · exact absurd he (by simp)
  unfold match?
  rw [show (⟨[], b :: rest ++ trail⟩ : Span) = (⟨[], b :: rest⟩ : Span).extend trail from rfl,
    hends, List.find?_map]
  rfl

end Pattern

private theorem picked_templateLiteral {s trail : Bytes} (hs : s ≠ [])
    (ht : allBlank trail = true) (before : Option UInt8) :
    Picked (.verbatim .templateLiteral) trail s
      (pick? (Region.rules .templateLiteral) before (s ++ trail))
      (pick? (Region.rules .templateLiteral) before s) := by
  obtain ⟨b, rest, rfl⟩ := List.exists_cons_of_ne_nil hs
  have hfinish := match?_append ((bare_finish .templateLiteral).ignores ht) before (b :: rest)
  have hpick : ∀ text, pick? (Region.rules .templateLiteral) before text =
      (((byte 92 ++ anyChar).match? before text).map (Lexeme.escape, ·)).or
        (((Region.finish .templateLiteral).match? before text).map (Lexeme.regionEnd, ·)) := by
    intro text
    unfold pick?
    rw [Region.rules, List.findSome?_cons, List.findSome?_cons, List.findSome?_nil]
    cases (byte 92 ++ anyChar).match? before text with
    | some e => rfl
    | none =>
      cases (Region.finish .templateLiteral).match? before text with
      | some e => rfl
      | none => rfl
  rw [hpick, hpick, hfinish]
  by_cases hlast : b = 92 ∧ rest = []
  · -- the backslash is the last byte of the text
    obtain ⟨rfl, rfl⟩ := hlast
    have hescape : (byte 92 ++ anyChar).match? before [92] = none := rfl
    have hend : (Region.finish .templateLiteral).match? before [92] = none := rfl
    rw [hescape, hend]
    cases hm : (byte 92 ++ anyChar).match? before ([92] ++ trail) with
    | none => exact .same none
    | some e =>
      obtain ⟨hne, hsplit⟩ := match?_split hm
      obtain ⟨c, taken, hc⟩ := List.exists_cons_of_ne_nil (List.reverse_ne_nil_iff.2 hne)
      rw [hc, List.cons_append] at hsplit
      obtain ⟨rfl, htrail⟩ := List.cons.inj hsplit
      have he : e = ⟨(92 :: taken).reverse, e.rest⟩ := by
        rw [← hc, List.reverse_reverse]
      rw [he]
      exact .escape taken e.rest rfl rfl htrail.symm
  · have hescape := match?_escape_append (fun h h' => hlast ⟨h, h'⟩) ht before
    rw [hescape]
    cases (byte 92 ++ anyChar).match? before (b :: rest) with
    | some e => exact .same (some (.escape, e))
    | none =>
      cases (Region.finish .templateLiteral).match? before (b :: rest) with
      | some e => exact .same (some (.regionEnd, e))
      | none => exact .same none

/-- What is picked does not depend on the white space behind the line, unless it is taken. -/
theorem picked_append (mode : Mode) (embedded : Bool) {s trail : Bytes} (hne : s ≠ [])
    (hs : newline ∉ s ++ trail) (ht : allBlank trail = true) (before : Option UInt8) :
    Picked mode trail s (pick? (mode.rules embedded) before (s ++ trail))
      (pick? (mode.rules embedded) before s) := by
  rcases mode.rules_cases embedded with hbare | ⟨state, rfl, htemplate, hlater⟩ | rfl
  · rw [pick?_append fun r hr => (hbare r hr).ignores ht]
    exact .same _
  · exact picked_script state hs ht before htemplate hlater
  · exact picked_templateLiteral hne ht before

/-- Two searches in one line, with and without the white space behind the line. -/
inductive Found (mode : Mode) (trail s : Bytes) :
    Option (Hit Lexeme) → Option (Hit Lexeme) → Prop where
  | nothing : Found mode trail s none none
  | same (h : Hit Lexeme) : Found mode trail s (some (h.extend trail)) (some h)
  | comment (state : ScriptState) (skipped text : Bytes) (hmode : mode = .script state)
    (hs : s = skipped ++ text) :
    Found mode trail s (some ⟨skipped, .lineComment, text ++ trail, []⟩)
      (some ⟨skipped, .lineComment, text, []⟩)
  | escape (skipped taken rest : Bytes) (hmode : mode = .verbatim .templateLiteral)
    (hs : s = skipped ++ [92]) (ht : trail = taken ++ rest) :
    Found mode trail s (some ⟨skipped, .escape, 92 :: taken, rest⟩) none

private theorem Found.cons {mode : Mode} {trail s : Bytes} {f₁ f₂ : Option (Hit Lexeme)}
    (h : Found mode trail s f₁ f₂) (b : UInt8) :
    Found mode trail (b :: s) (f₁.map (·.shift [b])) (f₂.map (·.shift [b])) := by
  cases h with
  | nothing => exact .nothing
  | same h => exact .same (h.shift [b])
  | comment state skipped text hmode hs =>
    exact .comment state (b :: skipped) text hmode (by rw [hs]; rfl)
  | escape skipped taken rest hmode hs ht =>
    exact .escape (b :: skipped) taken rest hmode (by rw [hs]; rfl) ht

theorem found_append (mode : Mode) (embedded : Bool) {s trail : Bytes} (hs : newline ∉ s ++ trail)
    (ht : allBlank trail = true) (before : Option UInt8) :
    Found mode trail s (search (mode.rules embedded) before (s ++ trail))
      (search (mode.rules embedded) before s) := by
  induction s generalizing before with
  | nil =>
    have hnone : search (mode.rules embedded) before trail = none :=
      search_eq_none_of_mayStart
        (fun b hb => mode.mayStart_rules embedded (isInert_of_allBlank ht hb)) before
    rw [List.nil_append, hnone]
    exact .nothing
  | cons b s ih =>
    have hpicked := picked_append mode embedded (List.cons_ne_nil b s) hs ht before
    have htail : newline ∉ s ++ trail := fun h => hs (List.mem_cons_of_mem b h)
    rw [List.cons_append] at *
    generalize hp₁ : pick? (mode.rules embedded) before (b :: (s ++ trail)) = p₁ at hpicked
    generalize hp₂ : pick? (mode.rules embedded) before (b :: s) = p₂ at hpicked
    cases hpicked with
    | same =>
      cases p₂ with
      | some r =>
        obtain ⟨label, e⟩ := r
        rw [search_cons_of_some hp₁, search_cons_of_some hp₂]
        exact .same ⟨[], label, e.taken.reverse, e.rest⟩
      | none =>
        rw [search_cons_of_none hp₁, search_cons_of_none hp₂]
        exact (ih htail (some b)).cons b
    | comment state hmode =>
      rw [search_cons_of_some hp₁, search_cons_of_some hp₂, List.reverse_reverse,
        List.reverse_reverse]
      exact .comment state [] (b :: s) hmode rfl
    | escape taken rest hmode hs ht =>
      rw [search_cons_of_some hp₁, search_cons_of_none hp₂, List.reverse_reverse]
      obtain ⟨rfl, rfl⟩ := List.cons.inj hs
      exact .escape [] taken rest hmode rfl ht

end Reindent
