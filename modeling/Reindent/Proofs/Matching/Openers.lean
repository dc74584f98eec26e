import Mathlib.Data.List.Forall2
import Reindent.Proofs.Scope

/-! What a closing token takes off a stack, as a relation. It is stated for stacks of anything that
has a kind, so that it serves for tokens with and without their places. -/
namespace Reindent

/-- A closer of one kind reaches past open tokens of another. -/
def Kind.passes : Kind → Kind → Bool
  | .template, inner => inner != .template
  | .switch, inner => inner == .case
  | _, _ => false

theorem forall₂_split {α β : Type} {R : α → β → Prop} {as as' : List α} {bs : List β}
    (h : List.Forall₂ R (as ++ as') bs) :
    ∃ cs cs', bs = cs ++ cs' ∧ List.Forall₂ R as cs ∧ List.Forall₂ R as' cs' := by
  induction as generalizing bs with
  | nil => exact ⟨[], bs, rfl, .nil, h⟩
  | cons a as ih =>
    cases h with
    | cons hab h =>
      obtain ⟨cs, cs', rfl, hcs, hcs'⟩ := ih h
      exact ⟨_ :: cs, cs', rfl, .cons hab hcs, hcs'⟩

namespace Scope
variable {α β : Type}

/-- A closer takes `opener` off a stack. It reaches past what stands above; a template tag leaves
that in place, and with any other closer it goes too. -/
def Takes (kindOf : α → Kind) (closer : Kind) (stack : List α) (opener : α) (rest : List α) :
    Prop :=
  ∃ above below, stack = above ++ opener :: below ∧
    (∀ a ∈ above, closer.passes (kindOf a) = true) ∧ kindOf opener = closer ∧
    rest = (if closer = .template then above else []) ++ below

theorem passes_self (kind : Kind) : kind.passes kind = false := by
  cases kind <;> rfl

namespace Takes
variable {kindOf : α → Kind} {closer : Kind} {stack rest rest' : List α} {opener opener' : α}

/-- The innermost token of the right kind, and nothing above it. -/
theorem of_head (h : kindOf opener = closer) (rest : List α) :
    Takes kindOf closer (opener :: rest) opener rest :=
  ⟨[], rest, rfl, by simp, h, by simp⟩

theorem sublist (h : Takes kindOf closer stack opener rest) : rest.Sublist stack := by
  obtain ⟨above, below, rfl, -, -, rfl⟩ := h
  apply List.Sublist.append
  · split_ifs
    · exact List.Sublist.refl above
    · exact List.nil_sublist above
  · exact List.sublist_cons_self opener below

theorem append (h : Takes kindOf closer stack opener rest) (bottom : List α) :
    Takes kindOf closer (stack ++ bottom) opener (rest ++ bottom) := by
  obtain ⟨above, below, rfl, hpasses, hkind, rfl⟩ := h
  exact ⟨above, below ++ bottom, by simp, hpasses, hkind, by simp⟩

/-- A closer takes one opener only. -/
theorem unique (h : Takes kindOf closer stack opener rest)
    (h' : Takes kindOf closer stack opener' rest') : opener = opener' ∧ rest = rest' := by
  obtain ⟨above, below, rfl, hpasses, hkind, rfl⟩ := h
  obtain ⟨above', below', hsplit, hpasses', hkind', rfl⟩ := h'
  have hself := passes_self closer
  induction above generalizing above' with
  | nil =>
    cases above' with
    | nil =>
      obtain ⟨rfl, rfl⟩ := List.cons.inj hsplit
      exact ⟨rfl, rfl⟩
    | cons a above' =>
      obtain ⟨rfl, -⟩ := List.cons.inj hsplit
      have hpass := hpasses' opener List.mem_cons_self
      rw [hkind, hself] at hpass
      exact absurd hpass Bool.false_ne_true
  | cons a above ih =>
    cases above' with
    | nil =>
      obtain ⟨rfl, -⟩ := List.cons.inj hsplit
      have hpass := hpasses a List.mem_cons_self
      rw [hkind', hself] at hpass
      exact absurd hpass Bool.false_ne_true
    | cons a' above' =>
      obtain ⟨rfl, htail⟩ := List.cons.inj hsplit
      obtain ⟨hopener, hrest⟩ := ih (fun x hx => hpasses x (List.mem_cons_of_mem _ hx)) above'
        htail fun x hx => hpasses' x (List.mem_cons_of_mem _ hx)
      refine ⟨hopener, ?_⟩
      split_ifs at hrest ⊢ with htemplate
      · rw [List.cons_append, List.cons_append, hrest]
      · exact hrest

/-- Stacks that hold the same kinds are closed side by side. -/
theorem beside {R : α → β → Prop} {kindOf' : β → Kind}
    (hR : ∀ a b, R a b → kindOf a = kindOf' b) {stack' : List β}
    (hs : List.Forall₂ R stack stack') (h : Takes kindOf closer stack opener rest) :
    ∃ opener' rest', Takes kindOf' closer stack' opener' rest' ∧ R opener opener' ∧
      List.Forall₂ R rest rest' := by
  obtain ⟨above, below, rfl, hpasses, hkind, rfl⟩ := h
  obtain ⟨above', tail', rfl, habove, htail⟩ := forall₂_split hs
  cases htail with
  | @cons _ opener' _ below' hopener hbelow =>
    refine ⟨opener', _, ⟨above', below', rfl, ?_, ?_, rfl⟩, hopener, ?_⟩
    · have hkinds : above.map kindOf = above'.map kindOf' := by
        rw [← List.forall₂_eq_eq_eq, List.forall₂_map_left_iff, List.forall₂_map_right_iff]
        exact habove.imp hR
      rw [← List.forall_mem_map (f := kindOf') (P := fun k => closer.passes k = true), ← hkinds,
        List.forall_mem_map]
      exact hpasses
    · rw [← hR _ _ hopener, hkind]
    · apply List.rel_append _ hbelow
      split_ifs
      · exact habove
      · exact .nil

end Takes

private theorem takeTemplate?_iff {stack rest : Stack} {opener : Token} :
    takeTemplate? stack = some (opener, rest) ↔ Takes Token.kind .template stack opener rest := by
  constructor
  · intro h
    induction stack generalizing rest with
    | nil => exact absurd h (by simp [takeTemplate?])
    | cons t stack ih =>
      rw [takeTemplate?] at h
      split_ifs at h with ht
      · obtain ⟨rfl, rfl⟩ := Prod.mk.inj (Option.some.inj h)
        exact .of_head ht stack
      · obtain ⟨⟨o, r⟩, hr, heq⟩ := Option.map_eq_some_iff.1 h
        obtain ⟨rfl, rfl⟩ := Prod.mk.inj heq
        obtain ⟨above, below, rfl, hpasses, hkind, rfl⟩ := ih hr
        refine ⟨t :: above, below, rfl, ?_, hkind, by simp⟩
        intro a ha
        rcases List.mem_cons.1 ha with rfl | ha
        · simpa [Kind.passes] using ht
        · exact hpasses a ha
  · rintro ⟨above, below, rfl, hpasses, hkind, rfl⟩
    induction above with
    | nil => simp [takeTemplate?, hkind]
    | cons t above ih =>
      have ht : t.kind ≠ .template := by
        simpa [Kind.passes] using hpasses t List.mem_cons_self
      rw [List.cons_append, takeTemplate?, if_neg ht,
        ih fun a ha => hpasses a (List.mem_cons_of_mem _ ha)]
      simp

private theorem takeSwitch?_iff {stack rest : Stack} {opener : Token} :
    takeSwitch? stack = some (opener, rest) ↔ Takes Token.kind .switch stack opener rest := by
  have hrest : ∀ above : Stack, (if Kind.switch = .template then above else []) = [] :=
    fun above => if_neg (by simp)
  unfold takeSwitch?
  constructor
  · intro h
    split at h
    · exact absurd h (by simp)
    · next t below hdrop =>
      split_ifs at h with ht
      obtain ⟨rfl, rfl⟩ := Prod.mk.inj (Option.some.inj h)
      refine ⟨stack.takeWhile (·.kind = .case), below, ?_, ?_, ht, by rw [hrest]; rfl⟩
      · rw [← hdrop, List.takeWhile_append_dropWhile]
      · intro a ha
        simpa [Kind.passes] using List.all_eq_true.1 List.all_takeWhile a ha
  · rintro ⟨above, below, rfl, hpasses, hkind, hr⟩
    have hdrop : (above ++ opener :: below).dropWhile (fun t => decide (t.kind = .case)) =
        opener :: below := by
      rw [List.dropWhile_append_of_pos, List.dropWhile_cons_of_neg]
      · simp [hkind]
      · intro a ha
        simpa [Kind.passes] using hpasses a ha
    rw [hdrop, hr, hrest]
    dsimp only
    rw [if_pos hkind, List.nil_append]

/-- Closing in one statement for all kinds of tokens. -/
theorem close_iff {stack rest : Stack} {t opener : Token} :
    close stack t = .ok (opener, rest) ↔ Takes Token.kind t.kind stack opener rest := by
  cases stack with
  | nil =>
    constructor
    · intro h
      exact absurd h (by simp [close])
    · rintro ⟨above, below, hsplit, -⟩
      exact absurd hsplit (by simp)
  | cons top below =>
    have hother : (∀ inner, t.kind.passes inner = false) → t.kind ≠ .template →
        ((if top.kind = t.kind then Except.ok (top, below)
            else .error (ScopeError.kindMismatch t top)) = .ok (opener, rest) ↔
          Takes Token.kind t.kind (top :: below) opener rest) := by
      intro hnone htemplate
      constructor
      · intro h
        split_ifs at h with hkind
        obtain ⟨rfl, rfl⟩ := Prod.mk.inj (Except.ok.inj h)
        exact .of_head hkind below
      · rintro ⟨above, below', hsplit, hpasses, hkind, rfl⟩
        cases above with
        | nil =>
          obtain ⟨rfl, rfl⟩ := List.cons.inj hsplit
          rw [if_pos hkind, if_neg htemplate, List.nil_append]
        | cons a above =>
          have hpass := hpasses a List.mem_cons_self
          rw [hnone] at hpass
          exact absurd hpass Bool.false_ne_true
    unfold close
    cases hkind : t.kind with
    | template =>
      dsimp only
      rw [← takeTemplate?_iff]
      cases takeTemplate? (top :: below) <;> simp
    | switch =>
      dsimp only
      rw [← takeSwitch?_iff]
      cases takeSwitch? (top :: below) <;> simp
    | _ =>
      rw [hkind] at hother
      exact hother (fun _ => rfl) (by simp)

end Scope
end Reindent
