import Reindent.Proofs.Pattern.Search

/-! Searches that end inside the front part of a text. What they find does not depend on the part
behind it, if the matches that stay in front of that part do not. -/
namespace Reindent.Pattern
variable {α : Type}

/-- Wherever a match starts in the text, the ends in front of `more` are those in the text alone. -/
def Confined (p : Pattern) (x more : Bytes) : Prop :=
  ∀ before s, s ≠ [] → s <:+ x →
    (p.ends before ⟨[], s ++ more⟩).filter (Span.leaves more.length) =
      (p.ends before ⟨[], s⟩).map (·.extend more)

theorem Confined.suffix {p : Pattern} {x y more : Bytes} (h : p.Confined x more) (hy : y <:+ x) :
    p.Confined y more := fun before s hne hs => h before s hne (hs.trans hy)

theorem confined_of_settles {p : Pattern} {more : Bytes} (hp : p.settles more.head? = true)
    (hl : p.looksAhead = true → more.head?.any Bytes.isWord = false) (x : Bytes) :
    p.Confined x more := fun before s _ _ => filter_ends_extend hp hl before ⟨[], s⟩

/-- Matches of the pattern do not depend on what stands behind them. -/
def isPlain : Pattern → Bool
  | .seq p q => p.isPlain && q.isPlain
  | .either p q => p.isPlain && q.isPlain
  | .many p => !p.nullable && p.isPlain
  | .avoid _ => false
  | .wordEdge => false
  | _ => true

theorem confined_of_isPlain {p : Pattern} (h : p.isPlain = true) (x more : Bytes) :
    p.Confined x more := by
  have hplain : ∀ next, p.settles next = true ∧ p.looksAhead = false := by
    intro next
    induction p <;> simp_all [isPlain, settles, looksAhead]
  obtain ⟨hsettles, hahead⟩ := hplain more.head?
  exact confined_of_settles hsettles (fun hl => absurd (hahead.symm.trans hl) Bool.false_ne_true) x

theorem Ignores.confined {p : Pattern} {more : Bytes} (h : p.Ignores more) (x : Bytes) :
    p.Confined x more := by
  intro before s _ _
  have hends : p.ends before ⟨[], s ++ more⟩ = _ := h before ⟨[], s⟩
  rw [hends]
  apply List.filter_eq_self.2
  intro e he
  obtain ⟨e', -, rfl⟩ := List.mem_map.1 he
  exact e'.leaves_extend more

/-- A pattern that cannot end with the last byte of the text sees that byte behind its matches. -/
theorem confined_of_mayEnd {p : Pattern} {c : UInt8} (hp : p.settles (some c) = true)
    (hw : Bytes.isWord c = false) (he : p.mayEnd c = false) {x : Bytes}
    (hx : x.getLast? = some c) (more : Bytes) : p.Confined x more := by
  intro before s hne hs
  obtain ⟨u, rfl⟩ : ∃ u, s = u ++ [c] := by
    obtain ⟨front, rfl⟩ := hs
    rw [List.getLast?_append_of_ne_nil _ hne, List.getLast?_eq_some_iff] at hx
    exact hx
  -- a match that leaves `more` leaves the last byte too
  have hinside : ∀ more, (p.ends before ⟨[], u ++ [c] ++ more⟩).filter (Span.leaves more.length) =
      (p.ends before ⟨[], u⟩).map (·.extend (c :: more)) := by
    intro more
    have hfront := @filter_ends_extend p (c :: more) hp (fun _ => hw) before ⟨[], u⟩
    have htext : (⟨[], u ++ [c] ++ more⟩ : Span) = (⟨[], u⟩ : Span).extend (c :: more) := by
      rw [Span.extend, List.append_assoc]
      rfl
    rw [htext, ← hfront]
    apply List.filter_congr
    intro e hmem
    rw [Bool.eq_iff_iff, Span.leaves_iff, Span.leaves_iff, List.length_cons]
    refine ⟨fun hle => ?_, fun hle => by omega⟩
    by_contra hlt
    obtain ⟨w, hw⟩ := exists_took hmem
    have hsplit : u ++ c :: more = w ++ e.rest := hw.rest
    have hlength := congrArg List.length hsplit
    rw [List.length_append, List.length_append, List.length_cons] at hlength
    have hrest : e.rest = more ∧ w = u ++ [c] := by
      rw [← List.singleton_append, ← List.append_assoc] at hsplit
      have hinj := List.append_inj hsplit (by rw [List.length_append, List.length_singleton]; omega)
      exact ⟨hinj.2.symm, hinj.1.symm⟩
    have hend := hw.finish c (by rw [hrest.2]; simp)
    exact absurd (he.symm.trans hend) Bool.false_ne_true
  have hall : p.ends before ⟨[], u ++ [c]⟩ = (p.ends before ⟨[], u⟩).map (·.extend [c]) := by
    have hnone := hinside []
    rw [List.append_nil] at hnone
    rw [← hnone, eq_comm, List.filter_eq_self]
    exact fun e _ => Span.leaves_iff.2 (Nat.zero_le _)
  rw [hinside more, hall, List.map_map]
  apply List.map_congr_left
  intro e _
  rw [Function.comp_apply, Span.extend, Span.extend, Span.extend, List.append_assoc]
  rfl

section Finding
variable {p : Pattern} {rules : List (α × Pattern)} {before : Option UInt8} {x s more : Bytes}

theorem match?_eq_none_of_confined (h : p.Confined s more) (hs : s ≠ [])
    (hm : p.match? before (s ++ more) = none) : p.match? before s = none := by
  have hends := h before s hs List.suffix_rfl
  unfold match? at hm ⊢
  rw [List.find?_eq_none] at hm ⊢
  intro e he
  have hmem : e.extend more ∈ p.ends before ⟨[], s ++ more⟩ := by
    have hmap := List.mem_map_of_mem (f := (·.extend more)) he
    rw [← hends] at hmap
    exact List.mem_of_mem_filter hmap
  exact hm (e.extend more) hmem

theorem match?_of_confined (h : p.Confined s more) (hs : s ≠ []) {e : Span}
    (hm : p.match? before (s ++ more) = some e) (he : more.length ≤ e.rest.length) :
    ∃ e', p.match? before s = some e' ∧ e = e'.extend more := by
  have hends := h before s hs List.suffix_rfl
  have hfound : ((p.ends before ⟨[], s ++ more⟩).filter (Span.leaves more.length)).find?
      (!·.taken.isEmpty) = some e := by
    obtain ⟨hne, front, back, hsplit, hfront⟩ := List.find?_eq_some_iff_append.1 hm
    rw [hsplit, List.filter_append, List.filter_cons_of_pos (Span.leaves_iff.2 he)]
    refine List.find?_eq_some_iff_append.2 ⟨hne, _, _, rfl, fun a ha => ?_⟩
    exact hfront a (List.mem_of_mem_filter ha)
  rw [hends, List.find?_map, Option.map_eq_some_iff] at hfound
  obtain ⟨e', hfind, rfl⟩ := hfound
  exact ⟨e', hfind, rfl⟩

theorem pick?_eq_none_of_confined (h : ∀ r ∈ rules, r.2.Confined s more) (hs : s ≠ [])
    (hp : pick? rules before (s ++ more) = none) : pick? rules before s = none := by
  rw [pick?_eq_none_iff] at hp ⊢
  exact fun r hr => match?_eq_none_of_confined (h r hr) hs (hp r hr)

theorem pick?_of_confined (h : ∀ r ∈ rules, r.2.Confined s more) (hs : s ≠ []) {label : α}
    {e : Span} (hp : pick? rules before (s ++ more) = some (label, e))
    (he : more.length ≤ e.rest.length) :
    ∃ e', pick? rules before s = some (label, e') ∧ e = e'.extend more := by
  unfold pick? at hp ⊢
  obtain ⟨front, ⟨found, p⟩, back, rfl, hfound, hfront⟩ := List.findSome?_eq_some_iff.1 hp
  obtain ⟨e₁, hmatch, heq⟩ := Option.map_eq_some_iff.1 hfound
  obtain ⟨rfl, rfl⟩ := Prod.mk.inj heq
  obtain ⟨e', hmatch', rfl⟩ := match?_of_confined (h _ (by simp)) hs hmatch he
  refine ⟨e', List.findSome?_eq_some_iff.2 ⟨front, (found, p), back, rfl, ?_, ?_⟩, rfl⟩
  · rw [hmatch']
    rfl
  · intro r hr
    have hnone := Option.map_eq_none_iff.1 (hfront r hr)
    rw [match?_eq_none_of_confined (h r (List.mem_append_left _ hr)) hs hnone]
    rfl

theorem search_skipped (h : ∀ r ∈ rules, r.2.Confined x more) {hit : Hit α}
    (hs : search rules before (x ++ more) = some hit) (hx : x = hit.skipped ++ s) :
    search rules before x =
      (search rules (hit.skipped.getLast?.or before) s).map (·.shift hit.skipped) := by
  induction x generalizing before hit with
  | nil =>
    obtain ⟨hskipped, rfl⟩ := List.append_eq_nil_iff.1 hx.symm
    rfl
  | cons b x ih =>
    rw [List.cons_append] at hs
    cases hp : pick? rules before (b :: (x ++ more)) with
    | some r =>
      obtain ⟨label, e⟩ := r
      rw [search_cons_of_some hp] at hs
      obtain rfl := Option.some.inj hs
      rw [hx]
      exact (Hit.map_shift_nil _).symm
    | none =>
      have hnone := pick?_eq_none_of_confined h (List.cons_ne_nil b x) hp
      rw [search_cons_of_none hp] at hs
      obtain ⟨hit', hs', rfl⟩ := Option.map_eq_some_iff.1 hs
      obtain ⟨-, hx⟩ := List.cons.inj hx
      have hrest := ih (fun r hr => (h r hr).suffix (List.suffix_cons b x)) hs' hx
      rw [search_cons_of_none hnone, hrest, Option.map_map]
      have hlast : (Hit.shift hit' [b]).skipped.getLast?.or before =
          hit'.skipped.getLast?.or (some b) := or_getLast?_cons b hit'.skipped before
      rw [hlast]
      rfl

/-- A search that ends in front of `more` finds what it finds without it. -/
theorem search_of_confined (h : ∀ r ∈ rules, r.2.Confined x more) {hit : Hit α}
    (hs : search rules before (x ++ more) = some hit) (hin : more.length ≤ hit.rest.length) :
    ∃ hit', search rules before x = some hit' ∧ hit = hit'.extend more := by
  obtain ⟨hne, hsplit⟩ := search_split hs
  obtain ⟨s, rfl, htail⟩ : ∃ s, x = hit.skipped ++ s ∧ s ++ more = hit.matched ++ hit.rest := by
    rw [List.append_assoc] at hsplit
    rcases List.append_eq_append_iff.1 hsplit with ⟨s, hx, hrest⟩ | ⟨s, hskipped, hmore⟩
    · exact ⟨s, hx, hrest.symm⟩
    · have hlength := congrArg List.length hmore
      have hpos := List.length_pos_iff.2 hne
      rw [List.length_append, List.length_append] at hlength
      omega
  have hs' : s ≠ [] := by
    rintro rfl
    have hlength := congrArg List.length htail
    have hpos := List.length_pos_iff.2 hne
    rw [List.nil_append, List.length_append] at hlength
    omega
  have hpick := pick?_of_search hs
  rw [← htail] at hpick
  have hsuffix : ∀ r ∈ rules, r.2.Confined s more :=
    fun r hr => (h r hr).suffix (List.suffix_append _ _)
  obtain ⟨e, hpick', he⟩ := pick?_of_confined hsuffix hs' hpick hin
  obtain ⟨b, s, rfl⟩ := List.exists_cons_of_ne_nil hs'
  have hfound := search_skipped h hs rfl
  rw [search_cons_of_some hpick'] at hfound
  refine ⟨_, hfound, ?_⟩
  obtain ⟨htaken, hrest⟩ := Span.mk.inj he
  obtain ⟨skipped, label, matched, rest⟩ := hit
  dsimp only at htaken hrest
  subst hrest
  rw [← htaken]
  simp [Hit.shift, Hit.extend]

end Finding

end Reindent.Pattern
