import Mathlib.Data.List.TakeWhile
import Reindent.Proofs.Matching.Openers
import Reindent.Proofs.Outline

/-! Which token closes which. Tokens of a document are told apart by their places, and the stack of
open tokens is followed from token to token. -/
namespace Reindent

/-- The tokens of a line that count for nesting: those from the first visible one on. -/
def Line.seen (l : Line) : List Token := l.tokens.dropWhile Token.isBlank

namespace Scope

/-- A token in its place: the index of its line, and its number among the tokens that count. -/
structure Mark where
  line : Nat
  place : Nat
  token : Token
  deriving DecidableEq, Repr

namespace Mark

def kind (m : Mark) : Kind := m.token.kind

def onto (m : Mark) (stack : List Mark) : List Mark :=
  if m.token.indents then m :: stack else stack

end Mark

def lineMarks (line place : Nat) (l : Line) : List Mark :=
  (l.seen.zipIdx place).map fun t => ⟨line, t.2, t.1⟩

/-- The marks of lines that are numbered from `line` on, with places from `place` on. -/
def marksFrom (line place : Nat) : List Line → List Mark
  | [] => []
  | l :: ls => lineMarks line place l ++ marksFrom (line + 1) (place + l.seen.length) ls

/-- The marks of a document, in order. -/
def marks (lines : List Line) : List Mark := marksFrom 0 0 lines

/-- What one token makes of the stack, if it finds what it closes. -/
inductive Advances (stack : List Mark) (m : Mark) : List Mark → Prop where
  | opens (h : m.token.dedents = false) : Advances stack m (m.onto stack)
  | closes {opener : Mark} {rest : List Mark} (h : m.token.dedents = true)
    (ht : Takes Mark.kind m.kind stack opener rest) : Advances stack m (m.onto rest)

/-- What tokens one after the other make of the stack. -/
inductive Reaches : List Mark → List Mark → List Mark → Prop where
  | nil (stack : List Mark) : Reaches stack [] stack
  | cons {stack between after : List Mark} {m : Mark} {ms : List Mark}
    (h : Advances stack m between) (hr : Reaches between ms after) : Reaches stack (m :: ms) after

/-- The tokens that are open in front of a place, when only the tokens of `ms` are there. -/
def Before (ms : List Mark) (m : Mark) (stack : List Mark) : Prop :=
  Reaches [] (ms.filter (·.place < m.place)) stack

/-- The open token that a closing token closes, when only the tokens of `ms` are there. -/
def Closes (ms : List Mark) (m opener : Mark) : Prop :=
  m ∈ ms ∧ m.token.dedents = true ∧
    ∃ stack rest, Before ms m stack ∧ Takes Mark.kind m.kind stack opener rest

/-- The token that opened the first of a chain of scopes, each of which was opened by the token that
closed the one before it. -/
inductive Origin (ms : List Mark) : Mark → Mark → Prop where
  | opening {m : Mark} (hi : m.token.indents = true) (hd : m.token.dedents = false) : Origin ms m m
  | reopening {m opener first : Mark} (hi : m.token.indents = true) (hc : Closes ms m opener)
    (h : Origin ms opener first) : Origin ms m first

section Reaching
variable {stack after after' : List Mark} {ms ms' : List Mark} {m : Mark}

theorem Advances.unique (h : Advances stack m after) (h' : Advances stack m after') :
    after = after' := by
  cases h with
  | opens hd =>
    cases h' with
    | opens _ => rfl
    | closes hd' _ => exact absurd (hd.symm.trans hd') Bool.false_ne_true
  | closes hd ht =>
    cases h' with
    | opens hd' => exact absurd (hd'.symm.trans hd) Bool.false_ne_true
    | closes _ ht' => rw [(ht.unique ht').2]

theorem Reaches.unique (h : Reaches stack ms after) (h' : Reaches stack ms after') :
    after = after' := by
  induction h with
  | nil stack =>
    cases h'
    rfl
  | cons ha _ ih =>
    cases h' with
    | cons ha' hr' =>
      obtain rfl := ha.unique ha'
      exact ih hr'

theorem Reaches.append (h : Reaches stack ms after) (h' : Reaches after ms' after') :
    Reaches stack (ms ++ ms') after' := by
  induction h with
  | nil stack => exact h'
  | cons ha _ ih => exact .cons ha (ih h')

theorem Reaches.split (h : Reaches stack (ms ++ ms') after) :
    ∃ between, Reaches stack ms between ∧ Reaches between ms' after := by
  induction ms generalizing stack with
  | nil => exact ⟨stack, .nil stack, h⟩
  | cons m ms ih =>
    cases h with
    | cons ha hr =>
      obtain ⟨between, h₁, h₂⟩ := ih hr
      exact ⟨between, .cons ha h₁, h₂⟩

/-- The stack holds tokens in the order of their places, and those ahead come later. -/
def Ordered (stack ms : List Mark) : Prop :=
  (stack.reverse ++ ms).Pairwise fun a b => a.place < b.place

/-- The innermost open token has the latest place. -/
theorem Ordered.eq_head {top e : Mark} (h : Ordered (top :: stack) ms) (he : e ∈ top :: stack)
    (hlast : top.place ≤ e.place) : e = top := by
  rcases List.mem_cons.1 he with rfl | he
  · rfl
  · have hlt : e.place < top.place := by
      unfold Ordered at h
      rw [List.reverse_cons, List.append_assoc] at h
      exact (List.pairwise_append.1 h).2.2 e (List.mem_reverse.2 he) top List.mem_cons_self
    omega

theorem Mark.onto_sublist (m : Mark) {rest : List Mark} (h : rest.Sublist stack) :
    (m.onto rest).Sublist (m :: stack) := by
  unfold Mark.onto
  split_ifs
  · exact h.cons_cons m
  · exact h.cons m

theorem Advances.ordered (h : Advances stack m after) (ho : Ordered stack (m :: ms)) :
    Ordered after ms := by
  have hsub : after.Sublist (m :: stack) := by
    cases h with
    | opens _ => exact m.onto_sublist (List.Sublist.refl stack)
    | closes _ ht => exact m.onto_sublist ht.sublist
  have hswap : stack.reverse ++ m :: ms = (m :: stack).reverse ++ ms := by simp
  unfold Ordered at *
  rw [hswap] at ho
  exact ho.sublist (List.Sublist.append hsub.reverse (List.Sublist.refl ms))

theorem Reaches.ordered (h : Reaches stack ms after) (ho : Ordered stack (ms ++ ms')) :
    Ordered after ms' := by
  induction h with
  | nil stack => exact ho
  | cons ha _ ih => exact ih (ha.ordered ho)

/-- A run over the first tokens of a document keeps them in order. -/
theorem Reaches.ordered_of_sorted {front back : List Mark} (h : Reaches [] front stack)
    (hs : (front ++ back).Pairwise fun a b => a.place < b.place) : Ordered stack back := by
  have ho : Ordered [] (front ++ back) := by
    rw [Ordered, List.reverse_nil, List.nil_append]
    exact hs
  exact h.ordered ho

end Reaching

section Places

theorem map_token_lineMarks (line place : Nat) (l : Line) :
    (lineMarks line place l).map Mark.token = l.seen := by
  unfold lineMarks
  rw [List.map_map]
  exact List.zipIdx_map_fst place l.seen

theorem line_of_mem_lineMarks {line place : Nat} {l : Line} {m : Mark}
    (h : m ∈ lineMarks line place l) : m.line = line := by
  obtain ⟨t, -, rfl⟩ := List.mem_map.1 h
  rfl

theorem place_of_mem_lineMarks {line place : Nat} {l : Line} {m : Mark}
    (h : m ∈ lineMarks line place l) : place ≤ m.place ∧ m.place < place + l.seen.length := by
  obtain ⟨⟨t, i⟩, ht, rfl⟩ := List.mem_map.1 h
  have hi := List.mem_zipIdx ht
  exact ⟨hi.1, hi.2.1⟩

theorem place_of_mem_marksFrom {line place : Nat} {lines : List Line} {m : Mark}
    (h : m ∈ marksFrom line place lines) : line ≤ m.line ∧ place ≤ m.place := by
  induction lines generalizing line place with
  | nil => exact absurd h (by simp [marksFrom])
  | cons l ls ih =>
    rcases List.mem_append.1 h with h | h
    · exact ⟨(line_of_mem_lineMarks h).ge, (place_of_mem_lineMarks h).1⟩
    · obtain ⟨hline, hplace⟩ := ih h
      exact ⟨by omega, by omega⟩

theorem exists_line_of_mem_marksFrom {i k : Nat} {lines : List Line} {m : Mark}
    (h : m ∈ marksFrom i k lines) : ∃ above line below, lines = above ++ line :: below ∧
      m.line = i + above.length ∧ m.token ∈ line.seen := by
  induction lines generalizing i k with
  | nil => exact absurd h (by simp [marksFrom])
  | cons l lines ih =>
    rcases List.mem_append.1 h with h | h
    · refine ⟨[], l, lines, rfl, line_of_mem_lineMarks h, ?_⟩
      rw [← map_token_lineMarks i k l]
      exact List.mem_map_of_mem h
    · obtain ⟨above, line, below, rfl, hline, htoken⟩ := ih h
      exact ⟨l :: above, line, below, rfl, by rw [hline, List.length_cons]; omega, htoken⟩

theorem marksFrom_append (i k : Nat) (above below : List Line) :
    marksFrom i k (above ++ below) = marksFrom i k above ++
      marksFrom (i + above.length) (k + (above.flatMap Line.seen).length) below := by
  induction above generalizing i k with
  | nil => rfl
  | cons l above ih =>
    rw [List.cons_append, marksFrom, marksFrom, ih, List.append_assoc, List.length_cons,
      List.flatMap_cons, List.length_append]
    congr 3 <;> omega

theorem sorted_marksFrom (line place : Nat) (lines : List Line) :
    (marksFrom line place lines).Pairwise fun a b => a.place < b.place := by
  induction lines generalizing line place with
  | nil => exact .nil
  | cons l ls ih =>
    rw [marksFrom, List.pairwise_append]
    refine ⟨?_, ih _ _, ?_⟩
    · unfold lineMarks
      rw [List.pairwise_map]
      generalize l.seen = ts
      induction ts generalizing place with
      | nil => exact .nil
      | cons t ts iht =>
        rw [List.zipIdx_cons]
        refine .cons ?_ (iht _)
        intro x hx
        have hi := (List.mem_zipIdx hx).1
        dsimp only
        omega
    · intro a ha b hb
      have h₁ := (place_of_mem_lineMarks ha).2
      have h₂ := (place_of_mem_marksFrom hb).2
      omega

/-- The first visible token of a line comes first among its marks. -/
theorem head?_lineMarks (line place : Nat) {l : Line} {t : Token} (h : l.first? = some t) :
    (lineMarks line place l).head? = some ⟨line, place, t⟩ := by
  unfold Line.first? at h
  rw [List.find?_not_eq_head?_dropWhile] at h
  obtain ⟨rest, hrest⟩ := List.head?_eq_some_iff.1 h
  unfold lineMarks Line.seen
  rw [hrest]
  rfl

theorem filter_place {front back : List Mark} {m : Mark}
    (h : (front ++ m :: back).Pairwise fun a b => a.place < b.place) :
    (front ++ m :: back).filter (·.place < m.place) = front := by
  obtain ⟨-, hback, hfront⟩ := List.pairwise_append.1 h
  rw [List.filter_append, List.filter_eq_self.2, List.filter_eq_nil_iff.2, List.append_nil]
  · intro a ha
    rcases List.mem_cons.1 ha with rfl | ha
    · simp
    · have hlt := List.rel_of_pairwise_cons hback ha
      simp only [decide_eq_true_eq]
      omega
  · intro a ha
    simpa using hfront a ha m List.mem_cons_self

end Places

end Scope
end Reindent
