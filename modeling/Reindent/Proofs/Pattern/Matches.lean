import Mathlib.Data.List.Basic
import Reindent.Pattern

/-! What a match can take, read off its pattern: whether it may be empty, and which bytes it may
start with, end with and hold. -/
namespace Reindent.Pattern

/-- Whether the pattern may match without taking a byte. -/
def nullable : Pattern → Bool
  | .empty => true
  | .one _ => false
  | .run _ _ => true
  | .seq p q => p.nullable && q.nullable
  | .either p q => p.nullable || q.nullable
  | .many _ => true
  | .avoid _ => true
  | .wordEdge => true

def mayStart : Pattern → UInt8 → Bool
  | .empty, _ => false
  | .one accepts, b => accepts b
  | .run _ accepts, b => accepts b
  | .seq p q, b => p.mayStart b || (p.nullable && q.mayStart b)
  | .either p q, b => p.mayStart b || q.mayStart b
  | .many p, b => p.mayStart b
  | .avoid _, _ => false
  | .wordEdge, _ => false

def mayEnd : Pattern → UInt8 → Bool
  | .empty, _ => false
  | .one accepts, b => accepts b
  | .run _ accepts, b => accepts b
  | .seq p q, b => q.mayEnd b || (q.nullable && p.mayEnd b)
  | .either p q, b => p.mayEnd b || q.mayEnd b
  | .many p, b => p.mayEnd b
  | .avoid _, _ => false
  | .wordEdge, _ => false

def mayTake : Pattern → UInt8 → Bool
  | .empty, _ => false
  | .one accepts, b => accepts b
  | .run _ accepts, b => accepts b
  | .seq p q, b => p.mayTake b || q.mayTake b
  | .either p q, b => p.mayTake b || q.mayTake b
  | .many p, b => p.mayTake b
  | .avoid _, _ => false
  | .wordEdge, _ => false

/-- A match from `s` to `e` that takes the bytes `w`, as far as the pattern tells. -/
structure Took (p : Pattern) (s e : Span) (w : Bytes) : Prop where
  taken : e.taken = w.reverse ++ s.taken
  rest : s.rest = w ++ e.rest
  empty : w = [] → p.nullable = true
  start : ∀ b ∈ w.head?, p.mayStart b = true
  finish : ∀ b ∈ w.getLast?, p.mayEnd b = true
  within : ∀ b ∈ w, p.mayTake b = true

namespace Took
variable {p q : Pattern} {s m e : Span} {v w : Bytes}

theorem refl (s : Span) (h : p.nullable = true) : Took p s s [] where
  taken := rfl
  rest := rfl
  empty := fun _ => h
  start := by simp
  finish := by simp
  within := by simp

theorem eitherLeft (h : Took p s e w) : Took (.either p q) s e w where
  taken := h.taken
  rest := h.rest
  empty := fun hw => by rw [nullable, h.empty hw, Bool.true_or]
  start := fun b hb => by rw [mayStart, h.start b hb, Bool.true_or]
  finish := fun b hb => by rw [mayEnd, h.finish b hb, Bool.true_or]
  within := fun b hb => by rw [mayTake, h.within b hb, Bool.true_or]

theorem eitherRight (h : Took q s e w) : Took (.either p q) s e w where
  taken := h.taken
  rest := h.rest
  empty := fun hw => by rw [nullable, h.empty hw, Bool.or_true]
  start := fun b hb => by rw [mayStart, h.start b hb, Bool.or_true]
  finish := fun b hb => by rw [mayEnd, h.finish b hb, Bool.or_true]
  within := fun b hb => by rw [mayTake, h.within b hb, Bool.or_true]

private theorem head_append {b : UInt8} (hb : b ∈ (v ++ w).head?) :
    b ∈ v.head? ∨ v = [] ∧ b ∈ w.head? := by
  cases v with
  | nil => exact Or.inr ⟨rfl, hb⟩
  | cons a v => exact Or.inl hb

private theorem last_append {b : UInt8} (hb : b ∈ (v ++ w).getLast?) :
    b ∈ w.getLast? ∨ w = [] ∧ b ∈ v.getLast? := by
  rcases List.eq_nil_or_concat w with rfl | ⟨w, x, rfl⟩
  · exact Or.inr ⟨rfl, by simpa using hb⟩
  · exact Or.inl (by simpa [← List.append_assoc] using hb)

theorem seq (h₁ : Took p s m v) (h₂ : Took q m e w) : Took (.seq p q) s e (v ++ w) where
  taken := by rw [h₂.taken, h₁.taken, List.reverse_append, List.append_assoc]
  rest := by rw [h₁.rest, h₂.rest, List.append_assoc]
  empty := by
    intro hvw
    obtain ⟨hv, hw⟩ := List.append_eq_nil_iff.1 hvw
    rw [nullable, h₁.empty hv, h₂.empty hw]
    rfl
  start := by
    intro b hb
    rcases head_append hb with hb | ⟨hv, hb⟩
    · rw [mayStart, h₁.start b hb, Bool.true_or]
    · rw [mayStart, h₁.empty hv, h₂.start b hb, Bool.true_and, Bool.or_true]
  finish := by
    intro b hb
    rcases last_append hb with hb | ⟨hw, hb⟩
    · rw [mayEnd, h₂.finish b hb, Bool.true_or]
    · rw [mayEnd, h₂.empty hw, h₁.finish b hb, Bool.true_and, Bool.or_true]
  within := by
    intro b hb
    rcases List.mem_append.1 hb with hb | hb
    · rw [mayTake, h₁.within b hb, Bool.true_or]
    · rw [mayTake, h₂.within b hb, Bool.or_true]

theorem manyCons (h₁ : Took p s m v) (h₂ : Took (.many p) m e w) :
    Took (.many p) s e (v ++ w) where
  taken := (h₁.seq h₂).taken
  rest := (h₁.seq h₂).rest
  empty := fun _ => rfl
  start := by
    intro b hb
    rcases head_append hb with hb | ⟨-, hb⟩
    · exact h₁.start b hb
    · exact h₂.start b hb
  finish := by
    intro b hb
    rcases last_append hb with hb | ⟨-, hb⟩
    · exact h₂.finish b hb
    · exact h₁.finish b hb
  within := by
    intro b hb
    rcases List.mem_append.1 hb with hb | hb
    · exact h₁.within b hb
    · exact h₂.within b hb

theorem length_le (h : Took p s e w) : e.rest.length ≤ s.rest.length := by
  rw [h.rest, List.length_append]
  omega

/-- A pattern that is not nullable makes progress. -/
theorem length_lt (h : Took p s e w) (hp : p.nullable = false) :
    e.rest.length < s.rest.length := by
  have hw : w ≠ [] := by
    intro hw
    rw [h.empty hw] at hp
    exact absurd hp (by simp)
  have hl := List.length_pos_iff.2 hw
  rw [h.rest, List.length_append]
  omega

end Took

theorem mem_reach_iff {accepts : UInt8 → Bool} {taken rest : Bytes} {shorter : List Span}
    {e : Span} : e ∈ reach accepts taken rest shorter ↔
      (∃ w, (∀ b ∈ w, accepts b = true) ∧ e.taken = w.reverse ++ taken ∧ rest = w ++ e.rest) ∨
      e ∈ shorter := by
  induction rest generalizing taken shorter with
  | nil =>
    rw [reach, List.mem_cons]
    refine or_congr_left ⟨?_, ?_⟩
    · rintro rfl
      exact ⟨[], by simp, rfl, rfl⟩
    · rintro ⟨w, -, ht, hr⟩
      obtain ⟨rfl, he⟩ := List.append_eq_nil_iff.1 hr.symm
      obtain ⟨et, er⟩ := e
      exact congrArg₂ Span.mk ht he
  | cons b rest ih =>
    have hstop : (∃ w, (∀ x ∈ w, accepts x = true) ∧ e.taken = w.reverse ++ taken ∧
        b :: rest = w ++ e.rest) ↔ e = ⟨taken, b :: rest⟩ ∨ (accepts b = true ∧
        ∃ w, (∀ x ∈ w, accepts x = true) ∧ e.taken = w.reverse ++ b :: taken ∧
          rest = w ++ e.rest) := by
      constructor
      · rintro ⟨w, hw, ht, hr⟩
        cases w with
        | nil =>
          left
          obtain ⟨et, er⟩ := e
          exact congrArg₂ Span.mk ht hr.symm
        | cons x w =>
          right
          rw [List.cons_append] at hr
          obtain ⟨rfl, hr'⟩ := List.cons.inj hr
          refine ⟨hw b List.mem_cons_self, w, fun x hx => hw x (List.mem_cons_of_mem _ hx), ?_, hr'⟩
          rw [ht, List.reverse_cons, List.append_assoc]
          rfl
      · rintro (rfl | ⟨hb, w, hw, ht, hr⟩)
        · exact ⟨[], by simp, rfl, rfl⟩
        · refine ⟨b :: w, ?_, ?_, ?_⟩
          · intro x hx
            rcases List.mem_cons.1 hx with rfl | hx
            · exact hb
            · exact hw x hx
          · rw [ht, List.reverse_cons, List.append_assoc]
            rfl
          · rw [hr]
            rfl
    rw [reach, hstop]
    split_ifs with hb
    · rw [ih, List.mem_cons, and_iff_right hb, or_assoc, or_left_comm]
    · have hne : ¬ (accepts b = true ∧ ∃ w, (∀ x ∈ w, accepts x = true) ∧
          e.taken = w.reverse ++ b :: taken ∧ rest = w ++ e.rest) := fun h => hb h.1
      rw [List.mem_cons, or_iff_left hne]

/-- A run can end behind any number of accepted bytes. -/
theorem mem_ends_run_iff {before : Option UInt8} {greedy : Bool} {accepts : UInt8 → Bool}
    {s e : Span} : e ∈ (Pattern.run greedy accepts).ends before s ↔
      ∃ w, (∀ b ∈ w, accepts b = true) ∧ e.taken = w.reverse ++ s.taken ∧ s.rest = w ++ e.rest := by
  have hmem : e ∈ (Pattern.run greedy accepts).ends before s ↔
      e ∈ reach accepts s.taken s.rest [] := by
    cases greedy with
    | false => simp [ends]
    | true => simp [ends]
  rw [hmem, mem_reach_iff]
  simp

theorem mem_ends_one_iff {before : Option UInt8} {accepts : UInt8 → Bool} {s e : Span} :
    e ∈ (Pattern.one accepts).ends before s ↔
      ∃ b, accepts b = true ∧ e.taken = b :: s.taken ∧ s.rest = b :: e.rest := by
  obtain ⟨taken, rest⟩ := s
  obtain ⟨taken', rest'⟩ := e
  cases rest with
  | nil => simp [ends]
  | cons b rest =>
    rw [ends]
    dsimp only
    split_ifs with hb
    · rw [List.mem_singleton, Span.mk.injEq]
      constructor
      · rintro ⟨rfl, rfl⟩
        exact ⟨b, hb, rfl, rfl⟩
      · rintro ⟨x, -, htaken, hrest⟩
        obtain ⟨rfl, rfl⟩ := List.cons.inj hrest
        exact ⟨htaken, rfl⟩
    · refine ⟨fun h => absurd h List.not_mem_nil, ?_⟩
      rintro ⟨x, hx, -, hrest⟩
      obtain ⟨rfl, -⟩ := List.cons.inj hrest
      exact absurd hx hb

theorem mem_ends_word_iff {before : Option UInt8} {w : Bytes} {s e : Span} :
    e ∈ (word w).ends before s ↔ e.taken = w.reverse ++ s.taken ∧ s.rest = w ++ e.rest := by
  induction w generalizing s with
  | nil =>
    obtain ⟨taken, rest⟩ := s
    obtain ⟨taken', rest'⟩ := e
    change _ ∈ [_] ↔ _
    rw [List.mem_singleton, Span.mk.injEq, List.reverse_nil, List.nil_append, List.nil_append,
      @eq_comm _ rest]
  | cons b w ih =>
    change e ∈ (Pattern.seq (byte b) (word w)).ends before s ↔ _
    rw [ends, List.mem_flatMap]
    constructor
    · rintro ⟨m, hm, he⟩
      obtain ⟨x, hx, htaken, hrest⟩ := mem_ends_one_iff.1 hm
      obtain ⟨htaken', hrest'⟩ := ih.1 he
      obtain rfl : x = b := by simpa using hx
      rw [htaken', htaken, hrest, hrest', List.reverse_cons, List.append_assoc]
      exact ⟨rfl, rfl⟩
    · rintro ⟨htaken, hrest⟩
      refine ⟨⟨b :: s.taken, w ++ e.rest⟩, mem_ends_one_iff.2 ⟨b, by simp, rfl, hrest⟩,
        ih.2 ⟨?_, rfl⟩⟩
      rw [htaken, List.reverse_cons, List.append_assoc]
      rfl

private theorem took_of_mem_iterate {before : Option UInt8} {p : Pattern}
    (h : ∀ s, ∀ e ∈ p.ends before s, ∃ w, Took p s e w) (ahead : Bytes) (s e : Span)
    (he : e ∈ iterate (p.ends before) ahead s) : ∃ w, Took (.many p) s e w := by
  induction ahead generalizing s with
  | nil =>
    obtain rfl : e = s := by simpa [iterate] using he
    exact ⟨[], .refl e rfl⟩
  | cons b ahead ih =>
    simp only [iterate, List.mem_append, List.mem_flatMap, List.mem_singleton] at he
    rcases he with ⟨m, hm, he⟩ | rfl
    · obtain ⟨v, hv⟩ := h s m hm
      obtain ⟨w, hw⟩ := ih m he
      exact ⟨v ++ w, hv.manyCons hw⟩
    · exact ⟨[], .refl e rfl⟩

/-- Every match takes bytes as its pattern allows. -/
theorem exists_took {before : Option UInt8} {p : Pattern} {s e : Span}
    (he : e ∈ p.ends before s) : ∃ w, Took p s e w := by
  induction p generalizing s e with
  | empty =>
    obtain rfl : e = s := by simpa [ends] using he
    exact ⟨[], .refl e rfl⟩
  | one accepts =>
    obtain ⟨taken, rest⟩ := s
    cases rest with
    | nil => exact absurd he (by simp [ends])
    | cons b rest =>
      rw [ends] at he
      dsimp only at he
      split_ifs at he with hb
      · obtain rfl := List.mem_singleton.1 he
        exact ⟨[b], rfl, rfl, by simp, by simpa [mayStart] using hb, by simpa [mayEnd] using hb,
          by simpa [mayTake] using hb⟩
      · exact absurd he (by simp)
  | run greedy accepts =>
    obtain ⟨w, hw, ht, hr⟩ := mem_ends_run_iff.1 he
    refine ⟨w, ht, hr, fun _ => rfl, ?_, ?_, hw⟩
    · exact fun b hb => hw b (List.mem_of_mem_head? hb)
    · exact fun b hb => hw b (List.mem_of_getLast? hb)
  | seq first second ih₁ ih₂ =>
    rw [ends, List.mem_flatMap] at he
    obtain ⟨m, hm, he⟩ := he
    obtain ⟨v, hv⟩ := ih₁ hm
    obtain ⟨w, hw⟩ := ih₂ he
    exact ⟨v ++ w, hv.seq hw⟩
  | either preferred other ih₁ ih₂ =>
    rw [ends, List.mem_append] at he
    rcases he with he | he
    · obtain ⟨w, hw⟩ := ih₁ he
      exact ⟨w, hw.eitherLeft⟩
    · obtain ⟨w, hw⟩ := ih₂ he
      exact ⟨w, hw.eitherRight⟩
  | many body ih => exact took_of_mem_iterate (fun _ _ => ih) _ _ _ he
  | avoid body =>
    rw [ends] at he
    split_ifs at he
    · obtain rfl := List.mem_singleton.1 he
      exact ⟨[], .refl e rfl⟩
    · exact absurd he (by simp)
  | wordEdge =>
    rw [ends] at he
    split_ifs at he
    · obtain rfl := List.mem_singleton.1 he
      exact ⟨[], .refl e rfl⟩
    · exact absurd he (by simp)

end Reindent.Pattern
