import Reindent.Proofs.Pattern.Search

/-! The preferred match of a pattern at a given text. -/
namespace Reindent.Pattern
variable {before : Option UInt8} {p q : Pattern} {s m e : Span} {taken rest w : Bytes}

/-- Of all the ends of a match, `e` comes first. -/
def Prefers (before : Option UInt8) (p : Pattern) (s e : Span) : Prop :=
  (p.ends before s).head? = some e

def Fails (before : Option UInt8) (p : Pattern) (s : Span) : Prop := p.ends before s = []

theorem Prefers.exists_cons (h : Prefers before p s e) :
    ∃ others, p.ends before s = e :: others := by
  unfold Prefers at h
  cases hl : p.ends before s with
  | nil => rw [hl] at h; exact absurd h (by simp)
  | cons x others =>
    rw [hl] at h
    exact ⟨others, by rw [Option.some.inj h]⟩

theorem Prefers.seq (h₁ : Prefers before p s m) (h₂ : Prefers before q m e) :
    Prefers before (.seq p q) s e := by
  obtain ⟨others, hp⟩ := h₁.exists_cons
  obtain ⟨others', hq⟩ := h₂.exists_cons
  unfold Prefers
  rw [ends, hp, List.flatMap_cons, hq]
  rfl

theorem Fails.seq (h : Fails before p s) : Fails before (.seq p q) s := by
  unfold Fails
  rw [ends, h]
  rfl

theorem Fails.seq_of_forall (h : ∀ m ∈ p.ends before s, Fails before q m) :
    Fails before (.seq p q) s := by
  unfold Fails
  rw [ends, List.flatMap_eq_nil_iff]
  exact h

theorem Prefers.assoc {r : Pattern} (h : Prefers before (.seq p (.seq q r)) s e) :
    Prefers before (.seq (.seq p q) r) s e := by
  unfold Prefers at *
  rw [← h, ends, ends, ends, List.flatMap_assoc]
  rfl

theorem prefers_empty : Prefers before .empty s s := rfl

theorem prefers_one {accepts : UInt8 → Bool} {b : UInt8} (h : accepts b = true) :
    Prefers before (.one accepts) ⟨taken, b :: rest⟩ ⟨b :: taken, rest⟩ := by
  unfold Prefers
  rw [ends]
  dsimp only
  rw [if_pos h]
  rfl

theorem fails_one {accepts : UInt8 → Bool} (h : ∀ b ∈ rest.head?, accepts b = false) :
    Fails before (.one accepts) ⟨taken, rest⟩ := by
  unfold Fails
  rw [ends]
  cases rest with
  | nil => rfl
  | cons b rest =>
    dsimp only
    rw [if_neg (by rw [h b rfl]; exact Bool.false_ne_true)]

theorem prefers_word (w : Bytes) :
    Prefers before (.word w) ⟨taken, w ++ rest⟩ ⟨w.reverse ++ taken, rest⟩ := by
  induction w generalizing taken with
  | nil => exact prefers_empty
  | cons b w ih =>
    have hb : Prefers before (.byte b) ⟨taken, b :: (w ++ rest)⟩ ⟨b :: taken, w ++ rest⟩ :=
      prefers_one (beq_self_eq_true b)
    rw [List.reverse_cons, List.append_assoc]
    exact hb.seq ih

theorem fails_word {w : Bytes} (h : ¬ w <+: rest) : Fails before (.word w) ⟨taken, rest⟩ := by
  induction w generalizing taken rest with
  | nil => exact absurd List.nil_prefix h
  | cons b w ih =>
    cases rest with
    | nil => exact Fails.seq (fails_one (by simp))
    | cons c rest =>
      by_cases hbc : c = b
      · subst hbc
        rw [List.cons_prefix_cons] at h
        apply Fails.seq_of_forall
        intro m hm
        have hends : (Pattern.byte c).ends before ⟨taken, c :: rest⟩ = [⟨c :: taken, rest⟩] := by
          unfold byte
          rw [ends]
          dsimp only
          rw [if_pos (beq_self_eq_true c)]
        rw [hends, List.mem_singleton] at hm
        rw [hm]
        exact ih fun hw => h ⟨rfl, hw⟩
      · apply Fails.seq
        apply fails_one
        intro x hx
        obtain rfl : c = x := by simpa using hx
        simpa using hbc

/-- A greedy run goes as far as it can. -/
theorem prefers_run {accepts : UInt8 → Bool} (hw : ∀ b ∈ w, accepts b = true)
    (hr : ∀ b ∈ rest.head?, accepts b = false) :
    Prefers before (.run true accepts) ⟨taken, w ++ rest⟩ ⟨w.reverse ++ taken, rest⟩ := by
  unfold Prefers
  rw [ends]
  dsimp only
  rw [if_pos rfl]
  generalize ([] : List Span) = shorter
  induction w generalizing taken shorter with
  | nil =>
    cases rest with
    | nil => rfl
    | cons b rest =>
      rw [List.nil_append, reach, if_neg (by rw [hr b rfl]; exact Bool.false_ne_true)]
      rfl
  | cons b w ih =>
    rw [List.cons_append, reach, if_pos (hw b List.mem_cons_self),
      ih (fun x hx => hw x (List.mem_cons_of_mem _ hx)), List.reverse_cons, List.append_assoc]
    rfl

private theorem reach_eq_append (accepts : UInt8 → Bool) (taken rest : Bytes)
    (shorter : List Span) :
    reach accepts taken rest shorter = reach accepts taken rest [] ++ shorter := by
  induction rest generalizing taken shorter with
  | nil => rfl
  | cons b rest ih =>
    rw [reach, reach]
    split_ifs
    · rw [ih, ih (b :: taken) [_], List.append_assoc]
      rfl
    · rfl

/-- A reluctant run stops at the first place where the pattern behind it matches. -/
theorem prefers_upTo {accepts : UInt8 → Bool} (hw : ∀ b ∈ w, accepts b = true)
    (hfail : ∀ x y, w = x ++ y → y ≠ [] → Fails before q ⟨x.reverse ++ taken, y ++ rest⟩)
    (he : Prefers before q ⟨w.reverse ++ taken, rest⟩ e) :
    Prefers before (.seq (.run false accepts) q) ⟨taken, w ++ rest⟩ e := by
  induction w generalizing taken with
  | nil =>
    obtain ⟨others, hq⟩ := he.exists_cons
    unfold Prefers
    rw [ends, ends]
    dsimp only [List.nil_append]
    have hhead : ∃ places, (reach accepts taken rest []).reverse = ⟨taken, rest⟩ :: places := by
      cases rest with
      | nil => exact ⟨[], rfl⟩
      | cons b rest =>
        rw [reach]
        split_ifs
        · rw [reach_eq_append, List.reverse_append]
          exact ⟨_, rfl⟩
        · exact ⟨[], rfl⟩
    obtain ⟨places, hp⟩ := hhead
    rw [if_neg (by exact Bool.false_ne_true), hp, List.flatMap_cons]
    rw [show (([] : Bytes).reverse ++ taken) = taken from rfl] at hq
    rw [hq]
    rfl
  | cons b w ih =>
    have hfirst : q.ends before ⟨taken, b :: (w ++ rest)⟩ = [] :=
      hfail [] (b :: w) rfl (by simp)
    have htail := @ih (b :: taken) (fun x hx => hw x (List.mem_cons_of_mem _ hx))
      (fun x y hxy hy => by
        have h := hfail (b :: x) y (by rw [hxy]; rfl) hy
        rw [List.reverse_cons, List.append_assoc] at h
        exact h)
      (by rw [List.reverse_cons, List.append_assoc] at he; exact he)
    unfold Prefers at htail ⊢
    rw [ends, ends] at htail ⊢
    dsimp only at htail ⊢
    rw [if_neg (by exact Bool.false_ne_true)] at htail ⊢
    rw [List.cons_append, reach, if_pos (hw b List.mem_cons_self), reach_eq_append,
      List.reverse_append, List.flatMap_append]
    rw [List.reverse_singleton, List.flatMap_cons, hfirst]
    exact htail

theorem Prefers.match? {text : Bytes} (h : Prefers before p ⟨[], text⟩ e) (he : e.taken ≠ []) :
    p.match? before text = some e := by
  obtain ⟨others, hp⟩ := h.exists_cons
  unfold Pattern.match?
  rw [hp, List.find?_cons_of_pos]
  simpa using he

theorem Fails.match? {text : Bytes} (h : Fails before p ⟨[], text⟩) :
    p.match? before text = none := by
  unfold Pattern.match?
  rw [h]
  rfl

section Membership

theorem Prefers.mem (h : Prefers before p s e) : e ∈ p.ends before s := by
  obtain ⟨others, hp⟩ := h.exists_cons
  rw [hp]
  exact List.mem_cons_self

theorem mem_ends_seq (h₁ : m ∈ p.ends before s) (h₂ : e ∈ q.ends before m) :
    e ∈ (Pattern.seq p q).ends before s := by
  rw [ends, List.mem_flatMap]
  exact ⟨m, h₁, h₂⟩

theorem mem_ends_eitherLeft (h : e ∈ p.ends before s) :
    e ∈ (Pattern.either p q).ends before s := by
  rw [ends, List.mem_append]
  exact Or.inl h

theorem mem_ends_eitherRight (h : e ∈ q.ends before s) :
    e ∈ (Pattern.either p q).ends before s := by
  rw [ends, List.mem_append]
  exact Or.inr h

/-- Any way to match that takes a byte makes a match. -/
theorem isSome_match?_of_mem {text : Bytes} (h : e ∈ p.ends before ⟨[], text⟩)
    (he : e.taken ≠ []) : (p.match? before text).isSome = true := by
  unfold Pattern.match?
  rw [List.find?_isSome]
  exact ⟨e, h, by simpa using he⟩

end Membership

/-- What a pattern matches starts like it. -/
theorem exists_head_of_match? {matched : Bytes}
    (h : p.match? before (matched ++ rest) = some ⟨matched.reverse, rest⟩) :
    ∃ b tail, matched = b :: tail ∧ p.mayStart b = true := by
  obtain ⟨w, hw⟩ := exists_took (List.mem_of_find?_eq_some h)
  obtain rfl : matched = w := by simpa using hw.taken
  obtain ⟨b, tail, rfl⟩ : ∃ b tail, matched = b :: tail :=
    List.exists_cons_of_ne_nil (by simpa using (match?_split h).1)
  exact ⟨b, tail, rfl, hw.start b rfl⟩

end Reindent.Pattern
