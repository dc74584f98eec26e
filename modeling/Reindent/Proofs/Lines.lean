import Mathlib.Data.List.Basic
import Reindent.Scan

/-! Documents as sequences of lines. -/
namespace Reindent

namespace Bytes

theorem lines_of_notMem {l : Bytes} (h : newline ∉ l) : lines l = [l] := by
  induction l with
  | nil => rfl
  | cons b l ih =>
    rw [List.mem_cons, not_or] at h
    rw [lines, if_neg (Ne.symm h.1), ih h.2]

theorem lines_append_newline {l rest : Bytes} (h : newline ∉ l) :
    lines (l ++ newline :: rest) = l :: lines rest := by
  induction l with
  | nil => rw [List.nil_append, lines, if_pos rfl]
  | cons b l ih =>
    rw [List.mem_cons, not_or] at h
    rw [List.cons_append, lines, if_neg (Ne.symm h.1), ih h.2]

theorem lines_joinLines {ls : List Bytes} (hne : ls ≠ []) (h : ∀ l ∈ ls, newline ∉ l) :
    lines (joinLines ls) = ls := by
  induction ls with
  | nil => exact absurd rfl hne
  | cons l ls ih =>
    have hl := h l List.mem_cons_self
    cases ls with
    | nil => exact lines_of_notMem hl
    | cons m ms =>
      have hm := ih (by simp) (fun x hx => h x (List.mem_cons_of_mem _ hx))
      rw [joinLines_cons (by simp), lines_append_newline hl, hm]

/-- A document is a single line, or a line and a shorter document. -/
theorem lines_induction {motive : Bytes → Prop}
    (single : ∀ l, newline ∉ l → motive l)
    (more : ∀ l rest, newline ∉ l → motive rest → motive (l ++ newline :: rest))
    (s : Bytes) : motive s := by
  induction hn : s.length using Nat.strongRecOn generalizing s with
  | _ n ih =>
    by_cases h : newline ∈ s
    · obtain ⟨l, rest, rfl, hl⟩ := List.eq_append_cons_of_mem h
      apply more l rest hl
      exact ih rest.length (by rw [← hn, List.length_append, List.length_cons]; omega) rest rfl
    · exact single s h

theorem length_lines (s : Bytes) : (lines s).length = s.count newline + 1 := by
  induction s using lines_induction with
  | single l h => rw [lines_of_notMem h, List.count_eq_zero.2 h, List.length_singleton]
  | more l rest h ih =>
    rw [lines_append_newline h, List.length_cons, ih, List.count_append, List.count_cons_self,
      List.count_eq_zero.2 h, Nat.zero_add]

theorem infix_of_mem_lines {l s : Bytes} (h : l ∈ lines s) : l <:+: s := by
  induction s using lines_induction with
  | single s hs =>
    rw [lines_of_notMem hs, List.mem_singleton] at h
    subst h
    exact List.infix_refl l
  | more front rest hfront ih =>
    rw [lines_append_newline hfront] at h
    rcases List.mem_cons.1 h with rfl | h
    · exact (List.prefix_append l _).isInfix
    · exact (ih h).trans ⟨front ++ [newline], [], by simp⟩

end Bytes

namespace Scan
open Bytes

theorem linesBelow_of_notMem {l : Bytes} (h : newline ∉ l) : linesBelow l = [(l, [])] := by
  induction l with
  | nil => rfl
  | cons b l ih =>
    rw [List.mem_cons, not_or] at h
    rw [linesBelow, if_neg (Ne.symm h.1), ih h.2]

theorem linesBelow_append_newline {l rest : Bytes} (h : newline ∉ l) :
    linesBelow (l ++ newline :: rest) = (l, newline :: rest) :: linesBelow rest := by
  induction l with
  | nil => rw [List.nil_append, linesBelow, if_pos rfl]
  | cons b l ih =>
    rw [List.mem_cons, not_or] at h
    rw [List.cons_append, linesBelow, if_neg (Ne.symm h.1), ih h.2]

end Scan
end Reindent
