import Reindent.Proofs.Matching.Levels

/-! Which documents the pass accepts: those where every closing token finds what it closes and nothing
stays open. Only tokens that nest have a say in it. -/
namespace Reindent.Scope

section Adequacy

def Alike (t : Token) (m : Mark) : Prop := t.kind = m.kind

theorem alike_onto {tokens : Stack} {stack : List Mark} (m : Mark) (level : Int64)
    (h : List.Forall₂ Alike tokens stack) :
    List.Forall₂ Alike
      (if m.token.indents then { m.token with level } :: tokens else tokens) (m.onto stack) := by
  unfold Mark.onto
  split_ifs
  · exact .cons rfl h
  · exact h

theorem Advances.step {stack after : List Mark} {m : Mark} {p : Progress}
    (h : Advances stack m after) (hs : List.Forall₂ Alike p.stack stack)
    (hv : p.started = true ∨ m.token.isBlank = false) :
    ∃ r, p.step m.token = .ok r ∧ r.1.started = true ∧ List.Forall₂ Alike r.1.stack after := by
  cases h with
  | opens hd =>
    refine ⟨_, Progress.step_of_open hv hd, by simp, ?_⟩
    rw [Progress.stack_push, Progress.stack_start]
    exact alike_onto m _ hs
  | closes hd ht =>
    obtain ⟨opener, rest, ht', -, hrest⟩ :=
      ht.beside (R := fun m t => Alike t m) (fun _ _ h => h.symm) hs.flip
    refine ⟨_, Progress.step_of_close hv hd (close_iff.2 ht'), by simp, ?_⟩
    rw [Progress.stack_push, Progress.stack_start]
    exact alike_onto m _ hrest.flip

theorem Reaches.walk {stack after ms : List Mark} {p : Progress} (h : Reaches stack ms after)
    (hs : List.Forall₂ Alike p.stack stack) (hp : p.started = true) :
    (p.walk (ms.map Mark.token)).2.2 = none ∧
      List.Forall₂ Alike (p.walk (ms.map Mark.token)).1.stack after := by
  induction h generalizing p with
  | nil stack => exact ⟨rfl, hs⟩
  | cons ha _ ih =>
    obtain ⟨r, hr, hstarted, hs'⟩ := ha.step hs (Or.inl hp)
    rw [List.map_cons, Progress.walk_of_ok hr]
    exact ih hs' hstarted

theorem Reaches.passLine {i k : Nat} {l : Line} {stack after : List Mark} {tokens : Stack}
    (h : Reaches stack (lineMarks i k l) after) (hs : List.Forall₂ Alike tokens stack) :
    (Scope.passLine tokens l).2.2 = none ∧
      List.Forall₂ Alike (Scope.passLine tokens l).1 after := by
  obtain ⟨hstack, -, -, herror⟩ := passLine_seen tokens l
  have hmap := map_token_lineMarks i k l
  rw [hstack, herror, ← hmap]
  cases hm : lineMarks i k l with
  | nil =>
    rw [hm] at h
    cases h
    exact ⟨rfl, hs⟩
  | cons m rest =>
    rw [hm] at h hmap
    have hv : m.token.isBlank = false := Progress.isBlank_of_dropWhile hmap.symm
    cases h with
    | cons ha hr =>
      obtain ⟨r, hr', hstarted, hs'⟩ := ha.step (p := { stack := tokens }) hs (Or.inr hv)
      rw [List.map_cons, Progress.walk_of_ok hr']
      exact hr.walk hs' hstarted

theorem Reaches.passLines {i k : Nat} {lines : List Line} {stack after : List Mark} {tokens : Stack}
    (h : Reaches stack (marksFrom i k lines) after) (hs : List.Forall₂ Alike tokens stack) :
    (Scope.passLines tokens lines).error? = none ∧
      List.Forall₂ Alike (Scope.passLines tokens lines).stack after := by
  induction lines generalizing i k stack tokens with
  | nil =>
    cases h
    exact ⟨rfl, hs⟩
  | cons l rest ih =>
    obtain ⟨between, hline, hrest⟩ := Reaches.split h
    obtain ⟨herror, hs'⟩ := hline.passLine hs
    rw [passLines_of_ok herror]
    exact ih hrest hs'

/-- A document is accepted if every closing token finds what it closes and nothing stays open. -/
theorem isOk_assign_iff (lines : List Line) :
    (assign lines).isOk = true ↔ Reaches [] (marks lines) [] := by
  rw [assign_eq]
  constructor
  · intro h
    split at h
    · exact absurd h (by simp [Except.isOk, Except.toBool])
    · exact absurd h (by simp [Except.isOk, Except.toBool])
    · next herror hstack =>
      obtain ⟨stack, hend⟩ := exists_follows herror
      have hstands := hend.stands
      rw [hstack] at hstands
      obtain rfl := List.forall₂_nil_left_iff.1 hstands
      exact hend.reaches
  · intro h
    obtain ⟨herror, hs⟩ := Reaches.passLines h .nil
    rw [herror, List.forall₂_nil_right_iff.1 hs]
    rfl

end Adequacy

section Nesting

def Same (m m' : Mark) : Prop := m.token = m'.token

theorem Advances.eq_of_not_nests {stack after : List Mark} {m : Mark} (h : Advances stack m after)
    (hm : m.token.nests = false) : after = stack := by
  rw [Token.nests, Bool.or_eq_false_iff] at hm
  cases h with
  | opens _ => exact if_neg (by simp [hm.1])
  | closes hd _ => exact absurd (hm.2.symm.trans hd) Bool.false_ne_true

theorem reaches_filter_nests {stack after ms : List Mark} :
    Reaches stack (ms.filter fun m => m.token.nests) after ↔ Reaches stack ms after := by
  induction ms generalizing stack with
  | nil => exact Iff.rfl
  | cons m ms ih =>
    cases hm : m.token.nests with
    | true =>
      rw [List.filter_cons_of_pos (by exact hm)]
      constructor
      · rintro (_ | ⟨ha, hr⟩)
        exact .cons ha (ih.1 hr)
      · rintro (_ | ⟨ha, hr⟩)
        exact .cons ha (ih.2 hr)
    | false =>
      rw [List.filter_cons_of_neg (by simp [hm]), ih]
      constructor
      · intro hr
        have hnone := hm
        rw [Token.nests, Bool.or_eq_false_iff] at hnone
        have ha : Advances stack m (m.onto stack) := .opens hnone.2
        rw [ha.eq_of_not_nests hm] at ha
        exact .cons ha hr
      · rintro (_ | ⟨ha, hr⟩)
        rw [ha.eq_of_not_nests hm] at hr
        exact hr

theorem same_onto {m m' : Mark} {stack stack' : List Mark} (hm : Same m m')
    (h : List.Forall₂ Same stack stack') : List.Forall₂ Same (m.onto stack) (m'.onto stack') := by
  unfold Mark.onto
  rw [← hm]
  split_ifs
  · exact .cons hm h
  · exact h

theorem Reaches.same {stack stack' after ms ms' : List Mark} (h : Reaches stack ms after)
    (hms : List.Forall₂ Same ms ms') (hs : List.Forall₂ Same stack stack') :
    ∃ after', Reaches stack' ms' after' ∧ List.Forall₂ Same after after' := by
  induction h generalizing ms' stack' with
  | nil stack =>
    cases hms
    exact ⟨stack', .nil stack', hs⟩
  | @cons _ _ _ m _ ha _ ih =>
    cases hms with
    | @cons _ m' _ _ hm hms =>
      cases ha with
      | opens hd =>
        obtain ⟨after', hr, hafter⟩ := ih hms (same_onto hm hs)
        exact ⟨after', .cons (.opens (hm ▸ hd)) hr, hafter⟩
      | closes hd ht =>
        obtain ⟨opener', rest', ht', -, hrest⟩ :=
          ht.beside (fun _ _ h => congrArg Token.kind h) hs
        have hkind : m.kind = m'.kind := congrArg Token.kind hm
        rw [hkind] at ht'
        obtain ⟨after', hr, hafter⟩ := ih hms (same_onto hm hrest)
        exact ⟨after', .cons (.closes (hm ▸ hd) ht') hr, hafter⟩

/-- Whether a document is accepted is decided by the tokens that nest. -/
theorem Reaches.of_nests {ms ms' : List Mark} (h : Reaches [] ms [])
    (heq : (ms.map Mark.token).filter Token.nests = (ms'.map Mark.token).filter Token.nests) :
    Reaches [] ms' [] := by
  rw [List.filter_map, List.filter_map, ← List.forall₂_eq_eq_eq, List.forall₂_map_left_iff,
    List.forall₂_map_right_iff] at heq
  obtain ⟨after, hr, hafter⟩ := (reaches_filter_nests.2 h).same heq .nil
  rw [List.forall₂_nil_left_iff.1 hafter] at hr
  exact reaches_filter_nests.1 hr

theorem map_token_marksFrom (i k : Nat) (lines : List Line) :
    (marksFrom i k lines).map Mark.token = lines.flatMap Line.seen := by
  induction lines generalizing i k with
  | nil => rfl
  | cons l rest ih => rw [marksFrom, List.map_append, map_token_lineMarks, ih, List.flatMap_cons]

theorem filter_nests_seen {l : Line} (h : ∀ t ∈ l.tokens, t.isBlank = true → t.nests = false) :
    l.seen.filter Token.nests = l.tokens.filter Token.nests := by
  have hfront : (l.tokens.takeWhile Token.isBlank).filter Token.nests = [] := by
    rw [List.filter_eq_nil_iff]
    intro t ht
    have hb : t.isBlank = true := List.all_eq_true.1 List.all_takeWhile t ht
    simp [h t (List.takeWhile_subset _ ht) hb]
  conv_rhs => rw [← List.takeWhile_append_dropWhile (p := Token.isBlank) (l := l.tokens),
    List.filter_append, hfront]
  rfl

end Nesting

end Reindent.Scope
