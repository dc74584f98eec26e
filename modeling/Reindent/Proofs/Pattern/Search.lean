import Reindent.Proofs.Pattern.Context

/-! Searching in texts that are put together. -/
namespace Reindent.Pattern
variable {α : Type}

/-- The same find in a text with more bytes behind it. -/
def Hit.extend (h : Hit α) (more : Bytes) : Hit α := { h with rest := h.rest ++ more }

/-- The same find in a text with more bytes in front of it. -/
def Hit.shift (h : Hit α) (front : Bytes) : Hit α := { h with skipped := front ++ h.skipped }

theorem Hit.map_shift_nil (h : Option (Hit α)) : h.map (·.shift []) = h := by
  cases h with
  | none => rfl
  | some h => rfl

theorem or_getLast?_cons (b : UInt8) (rest : Bytes) (before : Option UInt8) :
    (b :: rest).getLast?.or before = rest.getLast?.or (some b) := by
  rw [List.getLast?_cons]
  cases rest.getLast? with
  | none => rfl
  | some x => rfl

theorem match?_append {p : Pattern} {more : Bytes} (hp : p.Ignores more)
    (before : Option UInt8) (s : Bytes) :
    p.match? before (s ++ more) = (p.match? before s).map (·.extend more) := by
  have h := hp before ⟨[], s⟩
  unfold match?
  rw [show (⟨[], s ++ more⟩ : Span) = (⟨[], s⟩ : Span).extend more from rfl, h, List.find?_map]
  rfl

theorem match?_eq_none_of_mayStart {p : Pattern} {b : UInt8} (hp : p.mayStart b = false)
    (before : Option UInt8) (rest : Bytes) : p.match? before (b :: rest) = none := by
  unfold match?
  rw [List.find?_eq_none]
  intro e he hne
  obtain ⟨w, hw⟩ := exists_took he
  have ht : e.taken = w.reverse := by
    rw [hw.taken]
    exact List.append_nil _
  cases w with
  | nil => rw [ht] at hne; exact absurd hne (by simp)
  | cons x w =>
    have hx : x = b := (List.cons.inj hw.rest).1.symm
    have hs := hw.start x rfl
    rw [hx, hp] at hs
    exact Bool.false_ne_true hs

theorem match?_before_congr {before before' : Option UInt8}
    (h : before.any Bytes.isWord = before'.any Bytes.isWord) (p : Pattern) (s : Bytes) :
    p.match? before s = p.match? before' s := by
  unfold match?
  rw [ends_before_congr h]

theorem pick?_eq_none_iff {rules : List (α × Pattern)} {before : Option UInt8} {s : Bytes} :
    pick? rules before s = none ↔ ∀ r ∈ rules, r.2.match? before s = none := by
  unfold pick?
  rw [List.findSome?_eq_none_iff]
  refine forall₂_congr fun r _ => ?_
  rw [Option.map_eq_none_iff]

/-- The first pattern that matches is picked. -/
theorem pick?_of_match (front back : List (α × Pattern)) {label : α} {p : Pattern}
    {before : Option UInt8} {s : Bytes} {e : Span}
    (hfront : ∀ r ∈ front, r.2.match? before s = none) (hp : p.match? before s = some e) :
    pick? (front ++ (label, p) :: back) before s = some (label, e) := by
  have hnone := pick?_eq_none_iff.2 hfront
  unfold pick? at *
  rw [List.findSome?_append, hnone, Option.none_or, List.findSome?_cons, hp]
  rfl

theorem pick?_append {rules : List (α × Pattern)} {more : Bytes}
    (h : ∀ r ∈ rules, r.2.Ignores more) (before : Option UInt8) (s : Bytes) :
    pick? rules before (s ++ more) = (pick? rules before s).map fun r => (r.1, r.2.extend more) := by
  unfold pick?
  induction rules with
  | nil => rfl
  | cons r rules ih =>
    rw [List.findSome?_cons, List.findSome?_cons, match?_append (h r List.mem_cons_self)]
    cases r.2.match? before s with
    | none => exact ih fun x hx => h x (List.mem_cons_of_mem _ hx)
    | some e => rfl

theorem pick?_eq_none_of_mayStart {rules : List (α × Pattern)} {b : UInt8}
    (h : ∀ r ∈ rules, r.2.mayStart b = false) (before : Option UInt8) (rest : Bytes) :
    pick? rules before (b :: rest) = none :=
  pick?_eq_none_iff.2 fun r hr => match?_eq_none_of_mayStart (h r hr) before rest

theorem pick?_before_congr {before before' : Option UInt8}
    (h : before.any Bytes.isWord = before'.any Bytes.isWord) (rules : List (α × Pattern))
    (s : Bytes) : pick? rules before s = pick? rules before' s := by
  unfold pick?
  refine congrArg (List.findSome? · rules) (funext fun r => ?_)
  rw [match?_before_congr h]

theorem search_cons_of_none {rules : List (α × Pattern)} {before : Option UInt8} {b : UInt8}
    {rest : Bytes} (h : pick? rules before (b :: rest) = none) :
    search rules before (b :: rest) = (search rules (some b) rest).map (·.shift [b]) := by
  rw [search, h]
  rfl

theorem search_cons_of_some {rules : List (α × Pattern)} {before : Option UInt8} {b : UInt8}
    {rest : Bytes} {label : α} {e : Span} (h : pick? rules before (b :: rest) = some (label, e)) :
    search rules before (b :: rest) = some ⟨[], label, e.taken.reverse, e.rest⟩ := by
  rw [search, h]

theorem search_before_congr {before before' : Option UInt8}
    (h : before.any Bytes.isWord = before'.any Bytes.isWord) (rules : List (α × Pattern))
    (s : Bytes) : search rules before s = search rules before' s := by
  cases s with
  | nil => rfl
  | cons b rest => rw [search, search, pick?_before_congr h]

/-- Bytes with which no pattern starts are skipped. -/
theorem search_skip {rules : List (α × Pattern)} {front : Bytes}
    (h : ∀ b ∈ front, ∀ r ∈ rules, r.2.mayStart b = false) (before : Option UInt8) (s : Bytes) :
    search rules before (front ++ s) =
      (search rules (front.getLast?.or before) s).map (·.shift front) := by
  induction front generalizing before with
  | nil => exact (Hit.map_shift_nil _).symm
  | cons b front ih =>
    have hb := pick?_eq_none_of_mayStart (h b List.mem_cons_self) before (front ++ s)
    rw [List.cons_append, search_cons_of_none hb,
      ih (fun x hx => h x (List.mem_cons_of_mem _ hx)), or_getLast?_cons, Option.map_map]
    rfl

theorem search_eq_none_of_mayStart {rules : List (α × Pattern)} {s : Bytes}
    (h : ∀ b ∈ s, ∀ r ∈ rules, r.2.mayStart b = false) (before : Option UInt8) :
    search rules before s = none := by
  have hskip := search_skip h before []
  rw [List.append_nil] at hskip
  rw [hskip]
  rfl

theorem isSome_search_of_isSome_pick {rules : List (α × Pattern)} (before : Option UInt8)
    (front : Bytes) {s : Bytes} (h : (pick? rules (front.getLast?.or before) s).isSome = true) :
    (search rules before (front ++ s)).isSome = true := by
  induction front generalizing before with
  | nil =>
    cases s with
    | nil =>
      obtain ⟨⟨label, e⟩, hr⟩ := Option.isSome_iff_exists.1 h
      obtain ⟨r, -, hr⟩ := List.exists_of_findSome?_eq_some hr
      obtain ⟨e', he', -⟩ := Option.map_eq_some_iff.1 hr
      obtain ⟨hne, hs⟩ := match?_split he'
      exact absurd (List.reverse_eq_nil_iff.1 (List.append_eq_nil_iff.1 hs).1) hne
    | cons b s =>
      obtain ⟨⟨label, e⟩, hr⟩ := Option.isSome_iff_exists.1 h
      have hfound : search rules before (b :: s) = _ := search_cons_of_some hr
      rw [List.nil_append, hfound]
      rfl
  | cons b front ih =>
    cases hpick : pick? rules before (b :: (front ++ s)) with
    | some r =>
      obtain ⟨label, e⟩ := r
      rw [List.cons_append, search_cons_of_some hpick]
      rfl
    | none =>
      rw [List.cons_append, search_cons_of_none hpick, Option.isSome_map]
      rw [or_getLast?_cons] at h
      exact ih _ h

/-- What is found is the pick at its place. -/
theorem pick?_of_search {rules : List (α × Pattern)} {before : Option UInt8} {s : Bytes}
    {h : Hit α} (hs : search rules before s = some h) :
    pick? rules (h.skipped.getLast?.or before) (h.matched ++ h.rest) =
      some (h.label, ⟨h.matched.reverse, h.rest⟩) := by
  induction s generalizing before h with
  | nil => exact absurd hs (by simp [search])
  | cons b rest ih =>
    cases hpick : pick? rules before (b :: rest) with
    | some r =>
      obtain ⟨label, e⟩ := r
      obtain ⟨r, -, hr⟩ := List.exists_of_findSome?_eq_some hpick
      obtain ⟨e', he', heq⟩ := Option.map_eq_some_iff.1 hr
      obtain ⟨-, rfl⟩ := Prod.mk.inj heq
      obtain ⟨-, hsplit⟩ := match?_split he'
      rw [search_cons_of_some hpick] at hs
      obtain rfl := Option.some.inj hs
      dsimp only [List.getLast?_nil, Option.none_or]
      rw [hsplit, hpick, List.reverse_reverse]
    | none =>
      rw [search_cons_of_none hpick] at hs
      obtain ⟨h', hh, rfl⟩ := Option.map_eq_some_iff.1 hs
      have hp := ih hh
      dsimp only [Hit.shift]
      rw [List.singleton_append, or_getLast?_cons]
      exact hp

theorem label_mem_of_search {rules : List (α × Pattern)} {before : Option UInt8} {s : Bytes}
    {h : Hit α} (hs : search rules before s = some h) : h.label ∈ rules.map Prod.fst := by
  obtain ⟨r, hr, he⟩ := List.exists_of_findSome?_eq_some (pick?_of_search hs)
  obtain ⟨e, -, heq⟩ := Option.map_eq_some_iff.1 he
  rw [← (Prod.mk.inj heq).1]
  exact List.mem_map_of_mem hr

end Reindent.Pattern
