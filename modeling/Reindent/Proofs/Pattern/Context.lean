import Reindent.Proofs.Pattern.Matches

/-! What surrounds a text and when it matters to a match: the byte in front counts only as a word
byte or not, and the text behind only if a match can reach into it. -/
namespace Reindent

/-- The same place in a text with more bytes behind it. -/
def Span.extend (s : Span) (more : Bytes) : Span := ⟨s.taken, s.rest ++ more⟩

def Span.leaves (n : Nat) (s : Span) : Bool := n ≤ s.rest.length

theorem Span.leaves_iff {n : Nat} {s : Span} : s.leaves n = true ↔ n ≤ s.rest.length :=
  decide_eq_true_iff

theorem Span.leaves_eq_false_iff {n : Nat} {s : Span} :
    s.leaves n = false ↔ s.rest.length < n := by
  rw [Span.leaves, decide_eq_false_iff_not, Nat.not_le]

theorem Span.leaves_extend (s : Span) (more : Bytes) :
    (s.extend more).leaves more.length = true := by
  rw [leaves_iff, extend, List.length_append]
  omega

namespace Pattern

/-- Repetitions make progress, and nothing that must not follow can take the byte `next`. -/
def settles (next : Option UInt8) : Pattern → Bool
  | .seq p q => p.settles next && q.settles next
  | .either p q => p.settles next && q.settles next
  | .many p => !p.nullable && p.settles next
  | .avoid p => p.settles next && next.all (!p.mayTake ·)
  | _ => true

/-- Whether a match may depend on the byte behind it. -/
def looksAhead : Pattern → Bool
  | .seq p q => p.looksAhead || q.looksAhead
  | .either p q => p.looksAhead || q.looksAhead
  | .many p => p.looksAhead
  | .avoid p => p.looksAhead
  | .wordEdge => true
  | _ => false

/-- Matches of the pattern are the same with `more` behind the text. -/
def Ignores (p : Pattern) (more : Bytes) : Prop :=
  ∀ before s, p.ends before (s.extend more) = (p.ends before s).map (·.extend more)

private theorem filter_reach_of_lt {accepts : UInt8 → Bool} {taken rest : Bytes}
    {shorter : List Span} {n : Nat} (h : rest.length < n) :
    (reach accepts taken rest shorter).filter (Span.leaves n) = shorter.filter (Span.leaves n) := by
  induction rest generalizing taken shorter with
  | nil =>
    have hout : (⟨taken, []⟩ : Span).leaves n = false := Span.leaves_eq_false_iff.2 h
    rw [reach, List.filter_cons_of_neg (by rw [hout]; exact Bool.false_ne_true)]
  | cons b rest ih =>
    have hout : (⟨taken, b :: rest⟩ : Span).leaves n = false := Span.leaves_eq_false_iff.2 h
    rw [List.length_cons] at h
    rw [reach]
    split_ifs
    · rw [ih (by omega), List.filter_cons_of_neg (by rw [hout]; exact Bool.false_ne_true)]
    · rw [List.filter_cons_of_neg (by rw [hout]; exact Bool.false_ne_true)]

private theorem filter_reach_of_eq {accepts : UInt8 → Bool} {taken rest : Bytes}
    {shorter : List Span} :
    (reach accepts taken rest shorter).filter (Span.leaves rest.length) =
      ⟨taken, rest⟩ :: shorter.filter (Span.leaves rest.length) := by
  have hin : (⟨taken, rest⟩ : Span).leaves rest.length = true := Span.leaves_iff.2 (Nat.le_refl _)
  cases rest with
  | nil => rw [reach, List.filter_cons_of_pos hin]
  | cons b rest =>
    rw [reach]
    split_ifs
    · rw [filter_reach_of_lt (by simp), List.filter_cons_of_pos hin]
    · rw [List.filter_cons_of_pos hin]

private theorem filter_reach_extend (accepts : UInt8 → Bool) (more taken rest : Bytes)
    (shorter shorter' : List Span)
    (h : shorter'.filter (Span.leaves more.length) = shorter.map (·.extend more)) :
    (reach accepts taken (rest ++ more) shorter').filter (Span.leaves more.length) =
      (reach accepts taken rest shorter).map (·.extend more) := by
  induction rest generalizing taken shorter shorter' with
  | nil =>
    rw [List.nil_append, filter_reach_of_eq, h]
    rfl
  | cons b rest ih =>
    have hin := Span.leaves_extend ⟨taken, b :: rest⟩ more
    rw [List.cons_append, reach, reach]
    split_ifs
    · apply ih
      exact (List.filter_cons_of_pos hin).trans (congrArg _ h)
    · exact (List.filter_cons_of_pos hin).trans (congrArg _ h)

private theorem flatMap_filter {α β : Type} (l : List α) (f : α → List β) (q : α → Bool)
    (h : ∀ a ∈ l, q a = false → f a = []) : l.flatMap f = (l.filter q).flatMap f := by
  induction l with
  | nil => rfl
  | cons a l ih =>
    have ih' := ih fun x hx => h x (List.mem_cons_of_mem _ hx)
    by_cases ha : q a = true
    · rw [List.filter_cons_of_pos ha, List.flatMap_cons, List.flatMap_cons, ih']
    · rw [List.filter_cons_of_neg ha, List.flatMap_cons, ih',
        h a List.mem_cons_self (by simpa using ha), List.nil_append]

private theorem filter_flatMap_extend {more : Bytes} {l l' : List Span} {f f' : Span → List Span}
    (hl : l'.filter (Span.leaves more.length) = l.map (·.extend more))
    (hout : ∀ e ∈ l', ∀ m ∈ f' e, m.rest.length ≤ e.rest.length)
    (hin : ∀ e ∈ l, (f' (e.extend more)).filter (Span.leaves more.length) =
      (f e).map (·.extend more)) :
    (l'.flatMap f').filter (Span.leaves more.length) = (l.flatMap f).map (·.extend more) := by
  have hbeyond : ∀ e ∈ l', e.leaves more.length = false →
      (f' e).filter (Span.leaves more.length) = [] := by
    intro e he hlt
    rw [Span.leaves_eq_false_iff] at hlt
    rw [List.filter_eq_nil_iff]
    intro m hm
    have hle := hout e he m hm
    rw [Span.leaves_eq_false_iff.2 (by omega)]
    exact Bool.false_ne_true
  rw [List.filter_flatMap, flatMap_filter l' _ _ hbeyond, hl, List.flatMap_map, List.map_flatMap]
  exact List.flatMap_congr hin

private theorem length_le_of_mem_iterate (before : Option UInt8) (p : Pattern) (ahead : Bytes)
    (s e : Span) (he : e ∈ iterate (p.ends before) ahead s) : e.rest.length ≤ s.rest.length := by
  induction ahead generalizing s with
  | nil =>
    obtain rfl : e = s := by simpa [iterate] using he
    exact Nat.le_refl _
  | cons b ahead ih =>
    simp only [iterate, List.mem_append, List.mem_flatMap, List.mem_singleton] at he
    rcases he with ⟨m, hm, he⟩ | rfl
    · obtain ⟨w, hw⟩ := exists_took hm
      exact Nat.le_trans (ih m he) hw.length_le
    · exact Nat.le_refl _

/-- Where nothing is ahead, a pattern that makes progress has no match. -/
private theorem ends_eq_nil {before : Option UInt8} {p : Pattern} {s : Span}
    (hp : p.nullable = false) (hs : s.rest.length = 0) : p.ends before s = [] := by
  rw [List.eq_nil_iff_forall_not_mem]
  intro e he
  obtain ⟨w, hw⟩ := exists_took he
  have hlt := hw.length_lt hp
  omega

private theorem filter_iterate_extend {before : Option UInt8} {p : Pattern} {more : Bytes}
    (hp : p.nullable = false)
    (ih : ∀ s : Span, (p.ends before (s.extend more)).filter (Span.leaves more.length) =
      (p.ends before s).map (·.extend more))
    (ahead ahead' : Bytes) (s : Span) (h : s.rest.length ≤ ahead.length)
    (h' : s.rest.length + more.length ≤ ahead'.length) :
    (iterate (p.ends before) ahead' (s.extend more)).filter (Span.leaves more.length) =
      (iterate (p.ends before) ahead s).map (·.extend more) := by
  induction ahead generalizing ahead' s with
  | nil =>
    have hnone : p.ends before s = [] := ends_eq_nil hp (by simpa using h)
    have hself : [s.extend more].filter (Span.leaves more.length) = [s.extend more] :=
      List.filter_cons_of_pos (s.leaves_extend more)
    cases ahead' with
    | nil => exact hself
    | cons b ahead' =>
      have hflat := filter_flatMap_extend (f := fun e => [e]) (ih s)
        (fun e _ => length_le_of_mem_iterate before p ahead' e)
        (fun e he => absurd he (by rw [hnone]; simp))
      rw [iterate, iterate, List.filter_append, hself, hflat, hnone]
      rfl
  | cons a ahead ihead =>
    have hself : [s.extend more].filter (Span.leaves more.length) = [s.extend more] :=
      List.filter_cons_of_pos (s.leaves_extend more)
    cases ahead' with
    | nil =>
      have hzero : s.rest.length = 0 := by
        rw [List.length_nil] at h'
        omega
      have hnone : p.ends before s = [] := ends_eq_nil hp hzero
      rw [iterate, iterate, hnone]
      exact hself
    | cons b ahead' =>
      have hflat := filter_flatMap_extend (f := iterate (p.ends before) ahead) (ih s)
        (fun e _ => length_le_of_mem_iterate before p ahead' e) (fun e he => ?_)
      · rw [iterate, iterate, List.filter_append, hself, hflat, List.map_append]
        rfl
      · obtain ⟨w, hw⟩ := exists_took he
        have hlt := hw.length_lt hp
        simp only [List.length_cons] at h h'
        exact ihead ahead' e (by omega) (by omega)

/-- A match that reaches into `more` takes its first byte, and ends with one of its bytes. -/
private theorem exists_of_beyond {before : Option UInt8} {p : Pattern} {more : Bytes} {s e : Span}
    (he : e ∈ p.ends before (s.extend more)) (hlt : e.leaves more.length = false) :
    (∃ b ∈ more.head?, p.mayTake b = true) ∧ ∃ b ∈ more, p.mayEnd b = true := by
  rw [Span.leaves_eq_false_iff] at hlt
  obtain ⟨w, hw⟩ := exists_took he
  have hrest : s.rest ++ more = w ++ e.rest := hw.rest
  rcases List.append_eq_append_iff.1 hrest with ⟨v, hwv, hm⟩ | ⟨v, -, hr⟩
  · have hv : v ≠ [] := by
      rintro rfl
      rw [hm, List.nil_append] at hlt
      exact Nat.lt_irrefl _ hlt
    obtain ⟨b, v', rfl⟩ := List.exists_cons_of_ne_nil hv
    constructor
    · refine ⟨b, by rw [hm]; rfl, hw.within b ?_⟩
      rw [hwv]
      exact List.mem_append_right _ List.mem_cons_self
    · refine ⟨(b :: v').getLast (by simp), ?_, hw.finish _ ?_⟩
      · rw [hm]
        exact List.mem_append_left _ (List.getLast_mem _)
      · rw [hwv, List.getLast?_append_of_ne_nil _ (by simp), List.getLast?_eq_getLast_of_ne_nil]
        rfl
  · rw [hr, List.length_append] at hlt
    omega

private theorem filter_leaves_eq_self {before : Option UInt8} {p : Pattern} {more : Bytes}
    {s : Span} (h : (∀ b ∈ more.head?, p.mayTake b = false) ∨ ∀ b ∈ more, p.mayEnd b = false) :
    (p.ends before (s.extend more)).filter (Span.leaves more.length) =
      p.ends before (s.extend more) := by
  apply List.filter_eq_self.2
  intro e he
  by_contra hne
  obtain ⟨⟨b, hb, hbt⟩, ⟨c, hc, hce⟩⟩ := exists_of_beyond he (by simpa using hne)
  rcases h with h | h
  · rw [h b hb] at hbt
    exact Bool.false_ne_true hbt
  · rw [h c hc] at hce
    exact Bool.false_ne_true hce

/-- Of the matches in an extended text, those that stay in front of `more` are those of the text. -/
theorem filter_ends_extend {p : Pattern} {more : Bytes} (hp : p.settles more.head? = true)
    (hm : p.looksAhead = true → more.head?.any Bytes.isWord = false) (before : Option UInt8)
    (s : Span) :
    (p.ends before (s.extend more)).filter (Span.leaves more.length) =
      (p.ends before s).map (·.extend more) := by
  induction p generalizing s with
  | empty => exact List.filter_cons_of_pos (s.leaves_extend more)
  | one accepts =>
    obtain ⟨taken, rest⟩ := s
    cases rest with
    | nil =>
      cases more with
      | nil => rfl
      | cons b more =>
        have hout : (⟨b :: taken, more⟩ : Span).leaves (b :: more).length = false :=
          Span.leaves_eq_false_iff.2 (Nat.lt_succ_self _)
        simp only [ends, Span.extend, List.nil_append, List.map_nil]
        split_ifs
        · rw [List.filter_cons_of_neg (by rw [hout]; exact Bool.false_ne_true), List.filter_nil]
        · rfl
    | cons b rest =>
      simp only [ends, Span.extend, List.cons_append]
      split_ifs
      · exact List.filter_cons_of_pos (Span.leaves_extend ⟨b :: taken, rest⟩ more)
      · rfl
  | run greedy accepts =>
    have hreach := filter_reach_extend accepts more s.taken s.rest [] [] rfl
    cases greedy with
    | true => exact hreach
    | false =>
      simp only [ends, Bool.false_eq_true, if_false, List.map_reverse, ← hreach]
      exact List.filter_reverse
  | seq first second ih₁ ih₂ =>
    rw [settles, Bool.and_eq_true] at hp
    rw [looksAhead, Bool.or_eq_true] at hm
    rw [ends, ends]
    apply filter_flatMap_extend (ih₁ hp.1 (fun h => hm (Or.inl h)) s)
    · intro e _ m hm
      obtain ⟨w, hw⟩ := exists_took hm
      exact hw.length_le
    · exact fun e _ => ih₂ hp.2 (fun h => hm (Or.inr h)) e
  | either preferred other ih₁ ih₂ =>
    rw [settles, Bool.and_eq_true] at hp
    rw [looksAhead, Bool.or_eq_true] at hm
    rw [ends, ends, List.filter_append, List.map_append, ih₁ hp.1 (fun h => hm (Or.inl h)) s,
      ih₂ hp.2 (fun h => hm (Or.inr h)) s]
  | many body ih =>
    rw [settles, Bool.and_eq_true, Bool.not_eq_true'] at hp
    exact filter_iterate_extend hp.1 (ih hp.2 hm) s.rest _ s (Nat.le_refl _)
      (Nat.le_of_eq (by rw [Span.extend, List.length_append]))
  | avoid body ih =>
    rw [settles, Bool.and_eq_true, Option.all_eq_true] at hp
    have hbody := ih hp.1 hm s
    rw [filter_leaves_eq_self (Or.inl fun b hb => by simpa using hp.2 b hb)] at hbody
    rw [ends, ends, hbody, List.isEmpty_map]
    split_ifs
    · exact List.filter_cons_of_pos (s.leaves_extend more)
    · rfl
  | wordEdge =>
    have hhead : (s.rest ++ more).head?.any Bytes.isWord = s.rest.head?.any Bytes.isWord := by
      cases hs : s.rest with
      | nil => exact hm rfl
      | cons b rest => rfl
    rw [ends, ends, atEdge, atEdge]
    simp only [Span.extend, hhead]
    split_ifs
    · exact List.filter_cons_of_pos (s.leaves_extend more)
    · rfl

/-- A pattern that cannot take the first byte of `more` does not notice what is behind. -/
theorem ignores_of_mayTake {p : Pattern} {more : Bytes} (hp : p.settles more.head? = true)
    (hm : more.head?.any Bytes.isWord = false) (ht : ∀ b ∈ more.head?, p.mayTake b = false) :
    p.Ignores more := by
  intro before s
  rw [← filter_ends_extend hp (fun _ => hm) before s, filter_leaves_eq_self (Or.inl ht)]

/-- Nor does a pattern that cannot end with a byte of `more`. -/
theorem ignores_of_mayEnd {p : Pattern} {more : Bytes} (hp : p.settles more.head? = true)
    (hm : more.head?.any Bytes.isWord = false) (ht : ∀ b ∈ more, p.mayEnd b = false) :
    p.Ignores more := by
  intro before s
  rw [← filter_ends_extend hp (fun _ => hm) before s, filter_leaves_eq_self (Or.inr ht)]

/-- Of the byte in front of a text it matters only whether it is a word byte. -/
theorem ends_before_congr {before before' : Option UInt8}
    (h : before.any Bytes.isWord = before'.any Bytes.isWord) (p : Pattern) (s : Span) :
    p.ends before s = p.ends before' s := by
  have hends : ∀ q : Pattern, (∀ s, q.ends before s = q.ends before' s) →
      q.ends before = q.ends before' := fun q hq => funext hq
  induction p generalizing s with
  | empty => rfl
  | one accepts => rfl
  | run greedy accepts => rfl
  | seq first second ih₁ ih₂ => rw [ends, ends, ih₁, hends second ih₂]
  | either preferred other ih₁ ih₂ => rw [ends, ends, ih₁, ih₂]
  | many body ih => rw [ends, ends, hends body ih]
  | avoid body ih => rw [ends, ends, ih]
  | wordEdge =>
    have hleft : (s.taken.head?.or before).any Bytes.isWord =
        (s.taken.head?.or before').any Bytes.isWord := by
      cases s.taken.head? with
      | none => exact h
      | some b => rfl
    rw [ends, ends, atEdge, atEdge, hleft]

/-- Whether a match may depend on the byte in front of it. -/
def looksBack : Pattern → Bool
  | .seq p q => p.looksBack || (p.nullable && q.looksBack)
  | .either p q => p.looksBack || q.looksBack
  | .many p => p.looksBack
  | .avoid p => p.looksBack
  | .wordEdge => true
  | _ => false

/-- Once a byte is taken, the byte in front of the text is out of sight. -/
theorem ends_of_taken (before before' : Option UInt8) (p : Pattern) {s : Span}
    (hs : s.taken ≠ []) : p.ends before s = p.ends before' s := by
  induction p generalizing s with
  | empty => rfl
  | one accepts => rfl
  | run greedy accepts => rfl
  | seq first second ih₁ ih₂ =>
    rw [ends, ends, ih₁ hs]
    refine List.flatMap_congr fun e he => ih₂ ?_
    obtain ⟨w, hw⟩ := exists_took he
    rw [hw.taken]
    simp [hs]
  | either preferred other ih₁ ih₂ => rw [ends, ends, ih₁ hs, ih₂ hs]
  | many body ih =>
    rw [ends, ends]
    generalize s.rest = ahead
    induction ahead generalizing s with
    | nil => rfl
    | cons b ahead ihead =>
      rw [iterate, iterate, ih hs]
      refine congrArg (· ++ [s]) (List.flatMap_congr fun e he => ihead ?_)
      obtain ⟨w, hw⟩ := exists_took he
      rw [hw.taken]
      simp [hs]
  | avoid body ih => rw [ends, ends, ih hs]
  | wordEdge =>
    obtain ⟨b, taken, ht⟩ := List.exists_cons_of_ne_nil hs
    rw [ends, ends, ht]
    rfl

theorem ends_of_looksBack {p : Pattern} (hp : p.looksBack = false) (before before' : Option UInt8)
    (s : Span) : p.ends before s = p.ends before' s := by
  induction p generalizing s with
  | empty => rfl
  | one accepts => rfl
  | run greedy accepts => rfl
  | seq first second ih₁ ih₂ =>
    rw [looksBack, Bool.or_eq_false_iff, Bool.and_eq_false_iff] at hp
    rw [ends, ends, ih₁ hp.1]
    refine List.flatMap_congr fun e he => ?_
    obtain ⟨w, hw⟩ := exists_took he
    rcases hp.2 with hn | hq
    · apply ends_of_taken
      rw [hw.taken]
      intro hnil
      rw [List.append_eq_nil_iff, List.reverse_eq_nil_iff] at hnil
      rw [hw.empty hnil.1] at hn
      exact absurd hn (by simp)
    · exact ih₂ hq e
  | either preferred other ih₁ ih₂ =>
    rw [looksBack, Bool.or_eq_false_iff] at hp
    rw [ends, ends, ih₁ hp.1, ih₂ hp.2]
  | many body ih => rw [ends, ends, funext (ih hp)]
  | avoid body ih => rw [ends, ends, ih hp]
  | wordEdge => exact absurd hp (by simp [looksBack])

end Pattern
end Reindent
