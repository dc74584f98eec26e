import Mathlib.Data.List.Basic
import Reindent.Scope

/-! What the scope pass keeps: it sets levels and offsets, and leaves the text of every line as it
is. -/
namespace Reindent

def Token.numbered (number : Int64) (t : Token) : Token := { t with line := number }

@[simp] theorem Token.isBlank_numbered (number : Int64) (t : Token) :
    (t.numbered number).isBlank = t.isBlank := rfl

namespace Scope

namespace Progress

@[simp] theorem text_push (p : Progress) (t : Token) (level : Int64) :
    (p.push t level).2.text = t.text := by
  unfold push
  split_ifs <;> rfl

section Fields
variable (p : Progress) (t : Token) (level : Int64)

@[simp] theorem stack_start : (p.start t level).stack = p.stack := by
  unfold start
  split_ifs <;> rfl

@[simp] theorem started_start : (p.start t level).started = true := by
  unfold start
  split_ifs with h
  · exact h
  · rfl

theorem level_start : (p.start t level).level = if p.started then p.level else level := by
  unfold start
  split_ifs <;> rfl

theorem offset_start : (p.start t level).offset = if p.started then p.offset else t.offset := by
  unfold start
  split_ifs <;> rfl

theorem stack_push :
    (p.push t level).1.stack = if t.indents then { t with level } :: p.stack else p.stack := by
  unfold push
  split_ifs <;> rfl

@[simp] theorem started_push : (p.push t level).1.started = p.started := by
  unfold push
  split_ifs <;> rfl

@[simp] theorem level_push : (p.push t level).1.level = p.level := by
  unfold push
  split_ifs <;> rfl

@[simp] theorem offset_push : (p.push t level).1.offset = p.offset := by
  unfold push
  split_ifs <;> rfl

end Fields

section Equations
variable {p p' : Progress} {t t' : Token}

theorem step_of_blank (hs : p.started = false) (hb : t.isBlank = true) :
    p.step t = .ok (p, t) := by
  unfold step
  rw [hs, hb]
  rfl

private theorem not_skipped (hv : p.started = true ∨ t.isBlank = false) :
    (!p.started && t.isBlank) = false := by
  rcases hv with hs | hb
  · rw [hs]
    rfl
  · rw [hb, Bool.and_false]

theorem step_of_open (hv : p.started = true ∨ t.isBlank = false) (hd : t.dedents = false) :
    p.step t = .ok ((p.start t (nextLevel p.stack)).push t
      (p.start t (nextLevel p.stack)).level) := by
  unfold step
  rw [not_skipped hv, hd]
  rfl

theorem step_of_close (hv : p.started = true ∨ t.isBlank = false) (hd : t.dedents = true)
    {opener : Token} {rest : Stack} (hc : close p.stack t = .ok (opener, rest)) :
    p.step t = .ok (({ p with stack := rest }.start t opener.level).push t opener.level) := by
  unfold step
  rw [not_skipped hv, hd, hc]
  rfl

theorem step_of_error (hv : p.started = true ∨ t.isBlank = false) (hd : t.dedents = true)
    {e : ScopeError} (hc : close p.stack t = .error e) : p.step t = .error e := by
  unfold step
  rw [not_skipped hv, hd, hc]
  rfl

theorem walk_of_ok (h : p.step t = .ok (p', t')) (rest : List Token) :
    p.walk (t :: rest) = ((p'.walk rest).1, t' :: (p'.walk rest).2.1, (p'.walk rest).2.2) := by
  rw [walk, h]

theorem walk_of_error {e : ScopeError} (h : p.step t = .error e) (rest : List Token) :
    p.walk (t :: rest) = (p, t :: rest, some e) := by
  rw [walk, h]

end Equations

theorem text_of_step {p p' : Progress} {t t' : Token} (h : p.step t = .ok (p', t')) :
    t'.text = t.text := by
  unfold step at h
  split_ifs at h
  · obtain ⟨-, rfl⟩ := Prod.mk.inj (Except.ok.inj h)
    rfl
  · cases hc : close p.stack t with
    | error e =>
      rw [hc] at h
      exact absurd h (by simp [bind, Except.bind])
    | ok r =>
      rw [hc] at h
      have ht : (push _ t _).2 = t' := congrArg Prod.snd (Except.ok.inj h)
      rw [← ht, text_push]
  · have ht : (push _ t _).2 = t' := congrArg Prod.snd (Except.ok.inj h)
    rw [← ht, text_push]

theorem texts_walk (p : Progress) (tokens : List Token) :
    (p.walk tokens).2.1.map Token.text = tokens.map Token.text := by
  induction tokens generalizing p with
  | nil => rfl
  | cons t rest ih =>
    rw [walk]
    split
    · rfl
    · next p' t' hs =>
      dsimp only
      rw [List.map_cons, List.map_cons, ih, text_of_step hs]

end Progress

theorem raw_eq_of_texts {l l' : Line} (h : l.tokens.map Token.text = l'.tokens.map Token.text) :
    l.raw = l'.raw := by
  unfold Line.raw
  rw [List.flatMap_def, List.flatMap_def, h]

theorem raw_passLine (stack : Stack) (line : Line) : (passLine stack line).2.1.raw = line.raw :=
  raw_eq_of_texts (Progress.texts_walk { stack } line.tokens)

theorem passLines_of_error {stack : Stack} {line : Line} {e : ScopeError}
    (h : (passLine stack line).2.2 = some e) (rest : List Line) :
    passLines stack (line :: rest) =
      { stack := (passLine stack line).1, lines := (passLine stack line).2.1 :: rest,
        error? := some e } := by
  rw [passLines]
  generalize passLine stack line = pass at h
  obtain ⟨stack', line', error⟩ := pass
  dsimp only at h
  subst h
  rfl

theorem passLines_of_ok {stack : Stack} {line : Line} (h : (passLine stack line).2.2 = none)
    (rest : List Line) :
    passLines stack (line :: rest) =
      { passLines (passLine stack line).1 rest with
        lines := (passLine stack line).2.1 :: (passLines (passLine stack line).1 rest).lines } := by
  rw [passLines]
  generalize passLine stack line = pass at h
  obtain ⟨stack', line', error⟩ := pass
  dsimp only at h
  subst h
  rfl

theorem raws_passLines (stack : Stack) (lines : List Line) :
    (passLines stack lines).lines.map Line.raw = lines.map Line.raw := by
  induction lines generalizing stack with
  | nil => rfl
  | cons line rest ih =>
    have hraw := raw_passLine stack line
    rw [passLines]
    split
    · next stack' line' e hp =>
      rw [hp] at hraw
      rw [List.map_cons, List.map_cons, hraw]
    · next stack' line' hp =>
      rw [hp] at hraw
      dsimp only
      rw [List.map_cons, List.map_cons, hraw, ih]

theorem passLines_append {stack : Stack} {lines : List Line}
    (h : (passLines stack lines).error? = none) (more : List Line) :
    passLines stack (lines ++ more) =
      { passLines (passLines stack lines).stack more with
        lines := (passLines stack lines).lines ++
          (passLines (passLines stack lines).stack more).lines } := by
  induction lines generalizing stack with
  | nil => rfl
  | cons line lines ih =>
    cases hline : (passLine stack line).2.2 with
    | some e =>
      rw [passLines_of_error hline] at h
      exact absurd h (by simp)
    | none =>
      rw [passLines_of_ok hline] at h ⊢
      rw [List.cons_append, passLines_of_ok hline, ih h]
      rfl

theorem lines_pass (stack : Stack) (lines : List Line) :
    (pass stack lines).lines = (passLines stack lines).lines := by
  unfold pass
  dsimp only
  split <;> rfl

/-- A pass over a whole document fails like the pass over its lines, or at a scope that is left open. -/
theorem error_pass (stack : Stack) (lines : List Line) :
    (pass stack lines).error? =
      (passLines stack lines).error?.or ((passLines stack lines).stack.head?.map .neverClosed) := by
  unfold pass
  obtain ⟨stack, placed, error⟩ := passLines stack lines
  cases error with
  | some e => rfl
  | none =>
    cases stack with
    | nil => rfl
    | cons t stack => rfl

theorem stack_pass (stack : Stack) (lines : List Line) :
    (pass stack lines).stack = (passLines stack lines).stack := by
  unfold pass
  dsimp only
  split <;> rfl

theorem assign_eq (lines : List Line) :
    assign lines = match (passLines [] lines).error?, (passLines [] lines).stack with
      | some e, _ => .error e
      | none, t :: _ => .error (.neverClosed t)
      | none, [] => .ok (passLines [] lines).lines := by
  unfold assign pass
  obtain ⟨stack, lines, error⟩ := passLines [] lines
  cases error with
  | some e => rfl
  | none =>
    cases stack with
    | nil => rfl
    | cons t stack => rfl

/-- The text of no line changes. -/
theorem raws_of_assign {lines lines' : List Line} (h : assign lines = .ok lines') :
    lines'.map Line.raw = lines.map Line.raw := by
  unfold assign at h
  dsimp only at h
  split at h
  · exact absurd h (by simp)
  · obtain rfl := Except.ok.inj h
    rw [lines_pass, raws_passLines]

end Scope
end Reindent
