import Reindent.Proofs.Reindentation
import Reindent.Proofs.Scan.Modes

/-! Reindenting text, style sheets and scripts in which no template tag starts. Nothing is asked there
about the text around a lexeme that white space could answer. -/
namespace Reindent
open Bytes Text Pattern

namespace Scan

/-- Somewhere in the text a template tag starts. -/
def HoldsTag (text : Bytes) : Prop := ascii "\x7b%" <:+: text

/-- A template tag is recognised only where one starts. -/
theorem holdsTag_of_search {mode : Mode} {embedded : Bool} {before : Option UInt8} {text : Bytes}
    {hit : Hit Lexeme} (h : search (mode.rules embedded) before text = some hit)
    (hl : hit.label = .templateBlock) : HoldsTag text := by
  obtain ⟨⟨label, p⟩, hr, he⟩ := List.exists_of_findSome?_eq_some (pick?_of_search h)
  obtain ⟨e, hmatch, heq⟩ := Option.map_eq_some_iff.1 he
  obtain ⟨rfl, -⟩ := Prod.mk.inj heq
  rw [hl] at hr
  have hp : p = .literal "\x7b%" ++ .upTo ++ .literal "%\x7d" := by
    cases mode with
    | verbatim region => cases region <;> simp [Mode.rules, Region.rules] at hr
    | endTag => simp [Mode.rules, Markup.endTagRules] at hr
    | style s =>
      cases embedded <;> simpa [Mode.rules, StyleState.rules, Rules.template, StyleState.comments,
        Rules.strings, StyleState.closer, Rules.brackets, StyleState.marks] using hr
    | script s =>
      cases embedded <;> simpa [Mode.rules, ScriptState.rules, Rules.template, ScriptState.comments,
        Rules.strings, ScriptState.closer, Rules.brackets, ScriptState.backtick,
        ScriptState.words] using hr
    | _ => simpa [Mode.rules, Markup.rules, Rules.template, Markup.tags, OpenTag.rules,
        OpenTag.parts] using hr
  by_contra hno
  have hfails : ¬ ascii "\x7b%" <+: hit.matched ++ hit.rest := by
    intro hstarts
    refine hno (hstarts.isInfix.trans ?_)
    rw [← (search_split h).2, List.append_assoc]
    exact (List.suffix_append _ _).isInfix
  have hnone : p.match? (hit.skipped.getLast?.or before) (hit.matched ++ hit.rest) = none := by
    rw [hp]
    exact Fails.match? (Fails.seq (Fails.seq (fails_word hfails)))
  exact absurd (hnone.symm.trans hmatch) (by simp)

section Questions
variable {settings : Settings} {torn : Bool} {below : Bytes} {state : State} {line : Line}
  {rest : Bytes} {start : ModeName}

/-- Outside markup nothing is asked but whether end tags are ahead. -/
theorem lexemeQuestions_of_formed {modes : ModeStack} (h : modes.Formed start)
    (hs : start ≠ .markup) (blocks : Blocks) {lexeme : Lexeme} (hl : lexeme ≠ .templateBlock)
    (text : Bytes) : lexemeQuestions torn blocks below modes lexeme text rest = [] := by
  obtain ⟨active, returns, count, left⟩ := modes
  cases h with
  | inner hmarkup => exact absurd hmarkup hs
  | region r => cases lexeme <;> first | exact absurd rfl hl | rfl
  | outer houter hname =>
    subst hname
    cases active with
    | markup => exact absurd rfl hs
    | tag o => exact absurd houter (by simp [Mode.name, ModeName.isOuter])
    | _ => cases lexeme <;> first | exact absurd rfl hl | rfl

theorem stepQuestions_of_formed (h : state.modes.Formed start) (hs : start ≠ .markup)
    (hrest : ¬ HoldsTag rest) : stepQuestions settings torn below state line rest = [] := by
  cases hsearch : search (state.modes.active.rules state.modes.embedded) none rest with
  | none => exact stepQuestions_of_none hsearch
  | some hit =>
    rw [stepQuestions_of_some hsearch]
    exact lexemeQuestions_of_formed (formed_readGap h _ _) hs _
      (fun hl => hrest (holdsTag_of_search hsearch hl)) _

/-- Nothing is asked about a text, a style sheet or a script in which no template tag starts. -/
theorem questions_of_formed {modes : ModeStack} (h : modes.Formed start) (hs : start ≠ .markup)
    {source : Bytes} (hsource : ¬ HoldsTag source) : questions settings modes source = [] := by
  rw [List.eq_nil_iff_forall_not_mem]
  have hstart : ({ modes } : State).modes.Formed start := h
  refine forall_questions formed_step formed_readLine hstart ?_
  intro torn below state line rest hstate hrest _ _ q hq
  have htag : ¬ HoldsTag rest := fun htag =>
    hsource (htag.trans ((List.prefix_append _ _).isInfix.trans hrest.isInfix))
  rw [stepQuestions_of_formed hstate hs htag] at hq
  exact List.not_mem_nil hq

end Questions

end Scan

namespace Formatter
open Scan

/-- A text, a style sheet or a script without template tags comes out of its result at one tab width
as it comes out of its source: reindenting depends only on the text. -/
theorem reindent_standalone (blocks : Blocks) (v w : Int64) {language : Language}
    (hl : language ≠ .html) {source out : Bytes} (hsource : ¬ ascii "\x7b%" <:+: source)
    (h : ({ tabWidth := v, blocks, language } : Formatter).indent source = .ok out) :
    ({ tabWidth := w, blocks, language } : Formatter).indent out =
      ({ tabWidth := w, blocks, language } : Formatter).indent source := by
  have hformed := language.formed_start
  have hstart : language.start.active.name ≠ .markup := by
    cases language with
    | html => exact absurd rfl hl
    | _ => simp [Language.start, Mode.name]
  apply indent_of_steady { tabWidth := v, blocks, language } w ?_ h
  rw [questions_of_formed hformed hstart hsource]
  exact List.forall_mem_nil _

/-- A script with a chain of calls, a comment and a template literal, and its result without
indentation. -/
theorem reindent_standalone_chain :
    ({ tabWidth := 4, language := .javaScript } : Formatter).indent
        (ascii "f(\na)\n.g(\"</\") // h\n/* i\n  j */ k \n\x60l\n  m\x60") =
      ({ tabWidth := 4, language := .javaScript } : Formatter).indent
        (ascii " f(\n\ta)\n   .g(\"</\") // h \n/* i\n  j */ k \n \x60l\n  m\x60") :=
  reindent_standalone [] 0 4 (by decide) (by decide +kernel) (by decide +kernel)

end Formatter
end Reindent
