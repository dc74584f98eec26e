import Reindent.Proofs.Matching.Levels
import Reindent.Proofs.Reindentation

/-! The first visible token of a line among the marks of a document, and what the pass makes of the
line because of it. -/
namespace Reindent.Scope

/-- The mark of the first visible token of a line, by the lines above it. -/
def headMark (above : List Line) (t : Token) : Mark :=
  ⟨above.length, (above.flatMap Line.seen).length, t⟩

/-- The marks of the lines above a line come first, then its first visible token. -/
theorem exists_marks_split (above below : List Line) {line : Line} {t : Token}
    (ht : line.first? = some t) :
    ∃ back, marks (above ++ line :: below) = marks above ++ headMark above t :: back := by
  obtain ⟨rest, hrest⟩ := List.head?_eq_some_iff.1
    (head?_lineMarks (0 + above.length) (0 + (above.flatMap Line.seen).length) ht)
  unfold marks
  rw [marksFrom_append, marksFrom, hrest, Nat.zero_add, Nat.zero_add]
  exact ⟨_, rfl⟩

theorem line_lt_of_mem_marksFrom {i k : Nat} {lines : List Line} {m : Mark}
    (h : m ∈ marksFrom i k lines) : m.line < i + lines.length := by
  induction lines generalizing i k with
  | nil => exact absurd h (by simp [marksFrom])
  | cons l lines ih =>
    rw [List.length_cons]
    rcases List.mem_append.1 h with h | h
    · have hline := line_of_mem_lineMarks h
      omega
    · have hline := ih h
      omega

theorem headMark_le {above : List Line} {t : Token} {ms back : List Mark} {m : Mark}
    (hms : ms = marks above ++ headMark above t :: back)
    (hsorted : ms.Pairwise fun a b => a.place < b.place) (hm : m ∈ ms)
    (hline : m.line = above.length) :
    m = headMark above t ∨ (headMark above t).place < m.place := by
  rw [hms, List.pairwise_append, List.pairwise_cons] at hsorted
  rw [hms, List.mem_append, List.mem_cons] at hm
  rcases hm with hm | heq | hm
  · have hlt := line_lt_of_mem_marksFrom hm
    omega
  · exact Or.inl heq
  · exact Or.inr (hsorted.2.1.1 m hm)

theorem exists_placed {above below placed : List Line} {line : Line}
    (h : assign (above ++ line :: below) = .ok placed) :
    ∃ line', placed[above.length]? = some line' ∧ Placed line line' := by
  obtain ⟨above', rest, rfl, habove, hrest⟩ := forall₂_split (placed_of_assign h)
  cases hrest with
  | @cons _ line' _ below' hline _ =>
    refine ⟨line', ?_, hline⟩
    rw [habove.length_eq, List.getElem?_append_right (Nat.le_refl _), Nat.sub_self]
    rfl

theorem starts_of_assign {above below placed : List Line} {line : Line} {t : Token}
    (h : assign (above ++ line :: below) = .ok placed) (ht : line.first? = some t) :
    ∃ line', placed[above.length]? = some line' ∧ Placed line line' ∧
      Starts (marks (above ++ line :: below)) (fun j => placed[j]?.map Line.level)
        (headMark above t) line'.level line'.offset := by
  obtain ⟨line', hline', hplaced⟩ := exists_placed h
  refine ⟨line', hline', hplaced, ?_⟩
  have hat : (above ++ line :: below)[above.length]? = some line := by simp
  obtain ⟨back, hmarks⟩ := exists_marks_split above below ht
  generalize above ++ line :: below = lines at h hat hmarks
  rw [assign_eq] at h
  split at h
  · exact absurd h (by simp)
  · exact absurd h (by simp)
  · next herror _ =>
    obtain rfl := Except.ok.inj h
    have hf : Follows (marks lines) (fun j => (passLines [] lines).lines[j]?.map Line.level) [] []
        [] := ⟨.nil [], .nil⟩
    have hms : marks lines = [] ++ (marksFrom 0 0 lines ++ []) := by
      rw [List.append_nil]
      rfl
    obtain ⟨-, hlines⟩ := hf.passLines (sorted_marksFrom 0 0 lines) hms
      (fun j => by rw [Nat.zero_add]) herror
    obtain ⟨found, m, hfound, hm, hi, -, hfirst, hstart⟩ := hlines above.length line t hat ht
    obtain rfl : found = line' := Option.some.inj (hfound.symm.trans hline')
    have hhead : headMark above t ∈ marks lines := by
      rw [hmarks]
      exact List.mem_append_right _ List.mem_cons_self
    rw [Nat.zero_add] at hi hfirst
    have heq : m = headMark above t := by
      rcases headMark_le hmarks (sorted_marksFrom 0 0 lines) hm hi with heq | hlt
      · exact heq
      · have hle := hfirst _ hhead rfl
        omega
    rw [heq] at hstart
    exact hstart

/-- A token that closes nothing opened the first scope of its chain. -/
theorem Origin.eq_of_dedents {ms : List Mark} {m first : Mark} (h : Origin ms m first)
    (hd : m.token.dedents = false) : first = m := by
  cases h with
  | opening _ _ => rfl
  | reopening _ hc _ => exact absurd (hd.symm.trans hc.2.1) Bool.false_ne_true

/-- A line below a token that closed nothing and is the innermost open one. -/
theorem Starts.of_top {ms : List Mark} {levels : Nat → Option Int64} {m o : Mark}
    {stack : List Mark} {level offset : Int64} (h : Starts ms levels m level offset)
    (hsorted : ms.Pairwise fun a b => a.place < b.place) (htop : Before ms m (o :: stack))
    (ho : o.token.dedents = false) :
    (m.token.dedents = true → m.kind = o.kind → levels o.line = some level) ∧
      (m.token.dedents = false → (levels o.line).map (· + 1) = some level) := by
  constructor
  · intro hd hkind
    obtain ⟨opener, first, ⟨-, -, stack', rest, hbefore, htakes⟩, hfirst, hlevel⟩ := h.closing hd
    obtain rfl := hbefore.unique htop
    obtain ⟨rfl, -⟩ := htakes.unique (.of_head hkind.symm stack)
    rwa [hfirst.eq_of_dedents ho] at hlevel
  · intro hd
    obtain ⟨stack', hbefore, -, hinner⟩ := h.inside hd
    obtain rfl := hbefore.unique htop
    have hordered : Ordered (o :: stack) [] := by
      refine hbefore.ordered_of_sorted ?_
      rw [List.append_nil]
      exact hsorted.filter _
    obtain ⟨first, hfirst, hlevel⟩ := hinner o List.mem_cons_self fun x hx => by
      by_contra hlt
      obtain rfl := hordered.eq_head hx (by omega)
      omega
    rwa [hfirst.eq_of_dedents ho] at hlevel

end Reindent.Scope
