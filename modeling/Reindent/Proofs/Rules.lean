import Reindent.Mode.Reading
import Reindent.Proofs.Blank
import Reindent.Proofs.Pattern.Search

/-! What all lexemes have in common: none holds a newline. -/
namespace Reindent.Mode
open Bytes Pattern

/-- No lexeme of any mode can take a newline. -/
theorem newline_rules (mode : Mode) (embedded : Bool) :
    ∀ r ∈ mode.rules embedded,
      r.2.mayTake newline = false ∧ r.2.settles (some newline) = true := by
  cases mode with
  | text =>
    change ∀ r ∈ Rules.template, _
    decide
  | markup =>
    change ∀ r ∈ Markup.rules, _
    decide
  | tag o =>
    change ∀ r ∈ OpenTag.rules, _
    decide
  | endTag =>
    change ∀ r ∈ Markup.endTagRules, _
    decide
  | style s =>
    change ∀ r ∈ StyleState.rules embedded, _
    revert embedded
    decide
  | script s =>
    change ∀ r ∈ ScriptState.rules embedded, _
    revert embedded
    decide
  | verbatim region =>
    change ∀ r ∈ region.rules, _
    cases region with
    | block tag => cases tag <;> decide
    | element name => cases name <;> decide
    | _ => decide

/-- The lexemes of a line are the same whatever follows its newline. -/
theorem ignores_below (mode : Mode) (embedded : Bool) {below : Bytes}
    (h : ∀ b ∈ below.head?, b = newline) :
    ∀ r ∈ mode.rules embedded, r.2.Ignores below := by
  intro r hr
  cases below with
  | nil =>
    intro before s
    have hs : ∀ s : Span, s.extend [] = s := fun s => by rw [Span.extend, List.append_nil]
    rw [hs, funext hs, List.map_id']
  | cons b rest =>
    obtain rfl := h b rfl
    obtain ⟨ht, hs⟩ := newline_rules mode embedded r hr
    refine ignores_of_mayTake hs rfl ?_
    intro b hb
    obtain rfl : newline = b := by simpa using hb
    exact ht

end Reindent.Mode
