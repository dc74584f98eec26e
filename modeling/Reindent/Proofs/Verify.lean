import Mathlib.Data.List.Forall2
import Reindent.Proofs.Safety

/-! What the comparison of two texts decides: whether they are the same line by line, up to the
white space around the lines. -/
namespace Reindent
open Bytes Text

namespace Verify

/-- Two texts have the same lines up to the white space around each of them. -/
def SameLines (s r : Bytes) : Prop :=
  List.Forall₂ (fun a b => trim a = trim b) (lines s) (lines r)

/-- The first place where two lists of lines differ in more than white space. -/
structure FirstDifference (as bs : List Bytes) (i : Nat) : Prop where
  differ : ∃ a b, as[i]? = some a ∧ bs[i]? = some b ∧ trim a ≠ trim b
  before : ∀ j < i, ∀ a b, as[j]? = some a → bs[j]? = some b → trim a = trim b

theorem forall₂_trim_iff {as bs : List Bytes} :
    List.Forall₂ (fun a b => trim a = trim b) as bs ↔ as.map trim = bs.map trim := by
  have hmap : List.Forall₂ (· = ·) (as.map trim) (bs.map trim) ↔ as.map trim = bs.map trim := by
    rw [List.forall₂_eq_eq_eq]
  rw [← hmap, List.forall₂_map_left_iff, List.forall₂_map_right_iff]

theorem sameLines_iff {s r : Bytes} : SameLines s r ↔ (lines r).map trim = (lines s).map trim :=
  forall₂_trim_iff.trans eq_comm

theorem equivalence_sameLines : Equivalence SameLines where
  refl _ := sameLines_iff.2 rfl
  symm h := sameLines_iff.2 (sameLines_iff.1 h).symm
  trans h h' := sameLines_iff.2 ((sameLines_iff.1 h').trans (sameLines_iff.1 h))

theorem FirstDifference.not_forall₂ {as bs : List Bytes} {i : Nat} (h : FirstDifference as bs i) :
    ¬ List.Forall₂ (fun a b => trim a = trim b) as bs := by
  intro hall
  obtain ⟨a, b, ha, hb, hne⟩ := h.differ
  have hmap : (as.map trim)[i]? = (bs.map trim)[i]? := by rw [forall₂_trim_iff.1 hall]
  rw [List.getElem?_map, List.getElem?_map, ha, hb] at hmap
  exact hne (Option.some.inj hmap)

theorem FirstDifference.cons {as bs : List Bytes} {a b : Bytes} {i : Nat}
    (h : FirstDifference as bs i) (hab : trim a = trim b) :
    FirstDifference (a :: as) (b :: bs) (i + 1) where
  differ := h.differ
  before j hj x y hx hy := by
    cases j with
    | zero =>
      have hxa : a = x := Option.some.inj hx
      have hyb : b = y := Option.some.inj hy
      rw [← hxa, ← hyb]
      exact hab
    | succ j => exact h.before j (by omega) x y hx hy

/-- Lists of as many lines agree up to white space, or the comparison stops where they do not. -/
theorem compareLines_cases (number : Nat) {as bs : List Bytes} (hlength : as.length = bs.length) :
    List.Forall₂ (fun a b => trim a = trim b) as bs ∨
      ∃ i, FirstDifference as bs i ∧ compareLines number as bs = .error (.atLine (number + i)) := by
  induction as generalizing bs number with
  | nil =>
    have hnil : bs = [] := List.length_eq_zero_iff.1 hlength.symm
    rw [hnil]
    exact Or.inl .nil
  | cons a as ih =>
    cases bs with
    | nil => exact absurd hlength (by simp)
    | cons b bs =>
      have hrest : as.length = bs.length := by simpa using hlength
      by_cases hab : trim a = trim b
      · rcases ih (number + 1) hrest with hall | ⟨i, hfirst, herror⟩
        · exact Or.inl (.cons hab hall)
        · refine Or.inr ⟨i + 1, hfirst.cons hab, ?_⟩
          have hnumber : number + 1 + i = number + (i + 1) := by omega
          rw [hnumber] at herror
          -- a line that changed and a line that did not are both passed over
          rw [compareLines, herror]
          by_cases heq : a = b
          · rw [if_pos heq]
          · rw [if_neg heq, if_pos hab]
            rfl
      · have hne : a ≠ b := fun heq => hab (congrArg trim heq)
        refine Or.inr ⟨0, ⟨⟨a, b, rfl, rfl, hab⟩, by omega⟩, ?_⟩
        rw [compareLines, if_neg hne, if_neg hab, Nat.add_zero]

end Verify
open Verify

theorem verify_cases (s r : Bytes) :
    (SameLines s r ∧ verify s r = .ok (r != s)) ∨
    ((lines s).length ≠ (lines r).length ∧
      verify s r = .error (.corrupted (.lineCount (lines s).length (lines r).length))) ∨
    ∃ i, (lines s).length = (lines r).length ∧ FirstDifference (lines s) (lines r) i ∧
      verify s r = .error (.corrupted (.atLine (i + 1))) := by
  by_cases hlength : (lines s).length = (lines r).length
  · rcases compareLines_cases 1 hlength with hall | ⟨i, hfirst, herror⟩
    · exact Or.inl ⟨hall, verify_of_trim (sameLines_iff.1 hall)⟩
    · refine Or.inr (Or.inr ⟨i, hlength, hfirst, ?_⟩)
      rw [Nat.add_comm] at herror
      unfold verify
      dsimp only
      rw [if_neg (not_not.2 hlength), herror]
      rfl
  · refine Or.inr (Or.inl ⟨hlength, ?_⟩)
    unfold verify
    dsimp only
    rw [if_pos hlength]

theorem isOk_verify_iff {s r : Bytes} : (verify s r).isOk = true ↔ SameLines s r := by
  rcases verify_cases s r with ⟨hsame, hok⟩ | ⟨hlength, herror⟩ | ⟨i, -, hfirst, herror⟩
  · rw [hok]
    exact iff_of_true rfl hsame
  · rw [herror]
    exact iff_of_false (by simp [Except.isOk, Except.toBool]) fun hsame => hlength hsame.length_eq
  · rw [herror]
    exact iff_of_false (by simp [Except.isOk, Except.toBool]) hfirst.not_forall₂

/-- The comparison succeeds exactly for texts with as many lines that are equal in pairs without
the white space around them, which is an equivalence, and it tells whether the texts differ at all.
When it fails it names the numbers of lines, or else the first line that differs in more than white
space. -/
theorem verify_decides :
    (∀ s r, (verify s r).isOk = true ↔
      List.Forall₂ (fun a b => trim a = trim b) (lines s) (lines r)) ∧
    (Equivalence fun s r => (verify s r).isOk = true) ∧
    (∀ s r changed, verify s r = .ok changed → (changed = true ↔ s ≠ r)) ∧
    ∀ s r e, verify s r = .error e →
      ((lines s).length ≠ (lines r).length →
        e = .corrupted (.lineCount (lines s).length (lines r).length)) ∧
      ((lines s).length = (lines r).length →
        ∃ i, e = .corrupted (.atLine (i + 1)) ∧ FirstDifference (lines s) (lines r) i) := by
  have hequivalence : Equivalence fun s r => (verify s r).isOk = true := by
    have heq : (fun s r => (verify s r).isOk = true) = SameLines := by
      funext s r
      exact propext isOk_verify_iff
    rw [heq]
    exact equivalence_sameLines
  refine ⟨fun s r => isOk_verify_iff, hequivalence, fun s r changed h => ?_, fun s r e h => ?_⟩
  · rcases verify_cases s r with ⟨-, hok⟩ | ⟨-, herror⟩ | ⟨i, -, -, herror⟩
    · have hchanged : (r != s) = changed := Except.ok.inj (hok.symm.trans h)
      rw [← hchanged, bne_iff_ne]
      exact ne_comm
    · exact absurd (h.symm.trans herror) (by simp)
    · exact absurd (h.symm.trans herror) (by simp)
  · rcases verify_cases s r with ⟨-, hok⟩ | ⟨hlength, herror⟩ | ⟨i, hlength, hfirst, herror⟩
    · exact absurd (h.symm.trans hok) (by simp)
    · have he := Except.error.inj (h.symm.trans herror)
      exact ⟨fun _ => he, fun heq => absurd heq hlength⟩
    · have he := Except.error.inj (h.symm.trans herror)
      exact ⟨fun hne => absurd hlength hne, fun _ => ⟨i, he, hfirst⟩⟩

end Reindent
