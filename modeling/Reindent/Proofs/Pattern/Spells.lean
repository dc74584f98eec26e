import Reindent.Proofs.Pattern.Preferred

/-! Patterns as sets of texts. What a match takes does not depend on what stands around it, but for
edges of words and for texts to be avoided. -/
namespace Reindent
open Bytes

namespace Pattern

/-- The pattern matches these texts, wherever they stand. -/
def Spells (p : Pattern) (texts : Bytes → Prop) : Prop :=
  ∀ before (s e : Span), e ∈ p.ends before s ↔
    ∃ w, texts w ∧ e.taken = w.reverse ++ s.taken ∧ s.rest = w ++ e.rest

variable {p q : Pattern} {texts others : Bytes → Prop}

theorem spells_word (w : Bytes) : (word w).Spells (· = w) := by
  intro before s e
  rw [mem_ends_word_iff, exists_eq_left]

theorem spells_one (accepts : UInt8 → Bool) :
    (one accepts).Spells fun w => ∃ b, accepts b = true ∧ w = [b] := by
  intro before s e
  rw [mem_ends_one_iff]
  constructor
  · rintro ⟨b, hb, htaken, hrest⟩
    exact ⟨[b], ⟨b, hb, rfl⟩, htaken, hrest⟩
  · rintro ⟨_, ⟨b, hb, rfl⟩, htaken, hrest⟩
    exact ⟨b, hb, htaken, hrest⟩

theorem spells_run (greedy : Bool) (accepts : UInt8 → Bool) :
    (run greedy accepts).Spells fun w => ∀ b ∈ w, accepts b = true :=
  fun _ _ _ => mem_ends_run_iff

theorem Spells.seq (hp : p.Spells texts) (hq : q.Spells others) :
    (p ++ q).Spells fun w => ∃ u v, texts u ∧ others v ∧ w = u ++ v := by
  intro before s e
  change e ∈ (Pattern.seq p q).ends before s ↔ _
  rw [ends, List.mem_flatMap]
  constructor
  · rintro ⟨m, hm, he⟩
    obtain ⟨u, hu, htaken, hrest⟩ := (hp before s m).1 hm
    obtain ⟨v, hv, htaken', hrest'⟩ := (hq before m e).1 he
    refine ⟨u ++ v, ⟨u, v, hu, hv, rfl⟩, ?_, ?_⟩
    · rw [htaken', htaken, List.reverse_append, List.append_assoc]
    · rw [hrest, hrest', List.append_assoc]
  · rintro ⟨_, ⟨u, v, hu, hv, rfl⟩, htaken, hrest⟩
    rw [List.reverse_append, List.append_assoc] at htaken
    rw [List.append_assoc] at hrest
    exact ⟨⟨u.reverse ++ s.taken, v ++ e.rest⟩, (hp before s _).2 ⟨u, hu, rfl, hrest⟩,
      (hq before _ e).2 ⟨v, hv, htaken, rfl⟩⟩

theorem Spells.either (hp : p.Spells texts) (hq : q.Spells others) :
    (Pattern.either p q).Spells fun w => texts w ∨ others w := by
  intro before s e
  rw [ends, List.mem_append, hp before s e, hq before s e]
  simp only [or_and_right, exists_or]

theorem Spells.optional (hp : p.Spells texts) :
    (Pattern.optional p).Spells fun w => texts w ∨ w = [] :=
  hp.either (spells_word [])

/-- A word in any mixture of cases, if it has neither of the letters with more than two forms. -/
theorem spells_caseless {w : Bytes} (hw : ∀ b ∈ w, b ≠ 115 ∧ b ≠ 107) :
    (caseless w).Spells fun v => v.map toLower = w := by
  induction w with
  | nil =>
    intro before s e
    rw [show caseless [] = word [] from rfl, spells_word [] before s e]
    simp only [List.map_eq_nil_iff]
  | cons b w ih =>
    obtain ⟨⟨hs, hk⟩, hrest⟩ := List.forall_mem_cons.1 hw
    have hbyte : caselessByte b = .one fun x => toLower x == b := by
      unfold caselessByte
      dsimp only
      rw [if_neg (by simpa using hs), if_neg (by simpa using hk)]
    intro before s e
    have hseq := (spells_one fun x => toLower x == b).seq (ih hrest) before s e
    rw [← hbyte] at hseq
    refine hseq.trans ⟨?_, ?_⟩
    · rintro ⟨_, ⟨_, v, ⟨x, hx, rfl⟩, hv, rfl⟩, he⟩
      exact ⟨[x] ++ v, by simpa [hv] using hx, he⟩
    · rintro ⟨v, hv, he⟩
      cases v with
      | nil => exact absurd hv (by simp)
      | cons x v =>
        rw [List.map_cons] at hv
        obtain ⟨hx, hv⟩ := List.cons.inj hv
        exact ⟨x :: v, ⟨[x], v, ⟨x, by simpa using hx, rfl⟩, hv, rfl⟩, he⟩

/-- A match up to an edge of a word, which every text that the pattern matches ends with. -/
theorem Spells.match_wordEdge (hp : p.Spells texts)
    (hlast : ∀ w, texts w → ∃ b, w.getLast? = some b ∧ isWord b = true) {text : Bytes} :
    ((p ++ .wordEdge).match? none text).isSome = true ↔
      ∃ w rest, texts w ∧ text = w ++ rest ∧ ∀ b ∈ rest.head?, isWord b = false := by
  have hedge : ∀ {w taken rest : Bytes}, texts w →
      (atEdge ((w.reverse ++ taken).head?.or none) rest.head? = true ↔
        ∀ b ∈ rest.head?, isWord b = false) := by
    intro w taken rest hw
    obtain ⟨b, hb, hword⟩ := hlast w hw
    have hhead : (w.reverse ++ taken).head? = some b := by
      rw [List.head?_append, List.head?_reverse, hb]
      rfl
    rw [hhead]
    cases rest.head? with
    | none => simp [atEdge, hword]
    | some x => simp [atEdge, hword]
  unfold match?
  rw [List.find?_isSome]
  constructor
  · rintro ⟨e, he, -⟩
    obtain ⟨m, hm, he⟩ := List.mem_flatMap.1 he
    obtain ⟨w, hw, htaken, hrest⟩ := (hp none _ m).1 hm
    rw [ends, htaken] at he
    split_ifs at he with hat
    · exact ⟨w, m.rest, hw, hrest, (hedge hw).1 hat⟩
    · exact absurd he List.not_mem_nil
  · rintro ⟨w, rest, hw, rfl, hrest⟩
    have hmem : (⟨w.reverse ++ [], rest⟩ : Span) ∈ p.ends none ⟨[], w ++ rest⟩ :=
      (hp none _ _).2 ⟨w, hw, rfl, rfl⟩
    refine ⟨⟨w.reverse ++ [], rest⟩, mem_ends_seq hmem ?_, ?_⟩
    · rw [ends, if_pos ((hedge hw).2 hrest), List.mem_singleton]
    · obtain ⟨b, hb, -⟩ := hlast w hw
      have hne : w ≠ [] := by
        rintro rfl
        exact absurd hb (by simp)
      simpa using hne

end Pattern

end Reindent
