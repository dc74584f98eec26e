import Mathlib.Data.List.TakeWhile
import Reindent.Proofs.Scope

/-! What the scope pass sees of a line: its first visible token, and the tokens that open or close a
scope. -/
namespace Reindent

def Token.nests (t : Token) : Bool := t.indents || t.dedents

/-- The offset of the first visible token, whether that token nests, and all tokens from it on that
do. -/
structure Outline where
  offset : Int64
  leads : Bool
  nesting : List Token
  deriving DecidableEq, Repr

namespace Line

/-- A line without visible tokens has no outline. -/
def outline (l : Line) : Option Outline :=
  match l.tokens.dropWhile Token.isBlank with
  | [] => none
  | t :: rest =>
    some { offset := t.offset, leads := t.nests, nesting := (t :: rest).filter Token.nests }

theorem outline_eq_none_iff {l : Line} : l.outline = none ↔ l.isBlank = true := by
  have hall : l.isBlank = true ↔ l.tokens.dropWhile Token.isBlank = [] := by
    rw [isBlank, List.all_eq_true, List.dropWhile_eq_nil_iff]
  rw [hall]
  unfold outline
  cases l.tokens.dropWhile Token.isBlank with
  | nil => simp
  | cons t rest => simp

theorem isBlank_append (l : Line) (t : Token) :
    (l.append t).isBlank = (l.isBlank && t.isBlank) := by
  simp [isBlank, append, Token.isBlank]

/-- The first visible token of a line starts its outline. -/
theorem outline_append_of_blank {l : Line} (h : l.isBlank = true) (t : Token) :
    (l.append t).outline =
      if t.isBlank then none
      else some { offset := t.offset, leads := t.nests,
                  nesting := if t.nests then [t.numbered l.number] else [] } := by
  have hblank : ∀ x ∈ l.tokens, x.isBlank = true := List.all_eq_true.1 h
  have hdrop : (l.append t).tokens.dropWhile Token.isBlank =
      [t.numbered l.number].dropWhile Token.isBlank := List.dropWhile_append_of_pos hblank
  unfold outline
  rw [hdrop]
  by_cases ht : t.isBlank = true
  · rw [List.dropWhile_cons_of_pos (by simpa using ht), if_pos ht]
    rfl
  · rw [List.dropWhile_cons_of_neg (by simpa using ht), if_neg ht]
    by_cases hn : t.nests = true
    · have hn' : (t.numbered l.number).nests = true := hn
      rw [if_pos hn]
      dsimp only
      rw [List.filter_cons_of_pos hn']
      rfl
    · have hn' : ¬ (t.numbered l.number).nests = true := hn
      rw [if_neg hn]
      dsimp only
      rw [List.filter_cons_of_neg hn']
      rfl

/-- Later tokens count only if they nest. -/
theorem outline_append_of_visible {l : Line} {o : Outline} (h : l.outline = some o) (t : Token) :
    (l.append t).outline =
      some { o with nesting := o.nesting ++ if t.nests then [t.numbered l.number] else [] } := by
  unfold outline at h
  split at h
  · exact absurd h (by simp)
  · next first rest hd =>
    obtain rfl := Option.some.inj h
    have hdrop : (l.append t).tokens.dropWhile Token.isBlank =
        first :: (rest ++ [t.numbered l.number]) := by
      change (l.tokens ++ [t.numbered l.number]).dropWhile Token.isBlank = _
      rw [List.dropWhile_append, hd]
      rfl
    unfold outline
    rw [hdrop]
    dsimp only
    rw [← List.cons_append, List.filter_append]
    by_cases hn : t.nests = true
    · have hn' : (t.numbered l.number).nests = true := hn
      rw [if_pos hn, List.filter_cons_of_pos hn']
      rfl
    · have hn' : ¬ (t.numbered l.number).nests = true := hn
      rw [if_neg hn, List.filter_cons_of_neg hn']
      rfl

end Line

namespace Scope

namespace Progress

/-- In the middle of a line, a token that does not nest changes nothing. -/
private theorem step_of_not_nests {p : Progress} (hp : p.started = true) {t : Token}
    (ht : t.nests = false) : p.step t = .ok (p, t) := by
  rw [Token.nests, Bool.or_eq_false_iff] at ht
  rw [step_of_open (Or.inl hp) ht.2]
  simp [start, push, hp, ht.1]

theorem exists_step_of_not_nests (p : Progress) {t : Token} (ht : t.nests = false) :
    ∃ r, p.step t = .ok r ∧ r.1.stack = p.stack := by
  rw [Token.nests, Bool.or_eq_false_iff] at ht
  by_cases hskip : p.started = false ∧ t.isBlank = true
  · exact ⟨(p, t), step_of_blank hskip.1 hskip.2, rfl⟩
  · rw [not_and_or, Bool.not_eq_false, Bool.not_eq_true] at hskip
    refine ⟨_, step_of_open hskip ht.2, ?_⟩
    rw [stack_push, ht.1, if_neg Bool.false_ne_true, stack_start]

theorem started_of_step {p p' : Progress} {t t' : Token}
    (hv : p.started = true ∨ t.isBlank = false) (h : p.step t = .ok (p', t')) :
    p'.started = true := by
  have hstart : ∀ (q : Progress) (level level' : Int64),
      ((q.start t level).push t level').1.started = true := by
    intro q level level'
    unfold start push
    split_ifs with hi hq hq
    · exact hq
    · rfl
    · exact hq
    · rfl
  by_cases hd : t.dedents = true
  · cases hc : close p.stack t with
    | error e =>
      rw [step_of_error hv hd hc] at h
      exact absurd h (by simp)
    | ok r =>
      rw [step_of_close hv hd hc] at h
      have hs := hstart { p with stack := r.2 } r.1.level r.1.level
      rw [Except.ok.inj h] at hs
      exact hs
  · rw [step_of_open hv (by simpa using hd)] at h
    have hs := hstart p (nextLevel p.stack) (p.start t (nextLevel p.stack)).level
    rw [Except.ok.inj h] at hs
    exact hs

/-- Where a walk ends in the middle of a line is decided by the tokens that nest. -/
private theorem walk_filter {p : Progress} (hp : p.started = true) (tokens : List Token) :
    (p.walk tokens).1 = (p.walk (tokens.filter Token.nests)).1 ∧
      (p.walk tokens).2.2 = (p.walk (tokens.filter Token.nests)).2.2 := by
  induction tokens generalizing p with
  | nil => exact ⟨rfl, rfl⟩
  | cons t rest ih =>
    by_cases ht : t.nests = true
    · rw [List.filter_cons_of_pos ht]
      cases hs : p.step t with
      | error e =>
        rw [walk_of_error hs, walk_of_error hs]
        exact ⟨rfl, rfl⟩
      | ok r =>
        rw [walk_of_ok hs, walk_of_ok hs]
        exact ih (started_of_step (Or.inl hp) hs)
    · rw [List.filter_cons_of_neg ht, walk_of_ok (step_of_not_nests hp (by simpa using ht))]
      exact ih hp

private theorem walk_blanks (stack : Stack) {front : List Token}
    (h : ∀ t ∈ front, t.isBlank = true) (tokens : List Token) :
    (walk { stack } (front ++ tokens)).1 = (walk { stack } tokens).1 ∧
      (walk { stack } (front ++ tokens)).2.2 = (walk { stack } tokens).2.2 := by
  induction front with
  | nil => exact ⟨rfl, rfl⟩
  | cons t front ih =>
    rw [List.cons_append, walk_of_ok (step_of_blank rfl (h t List.mem_cons_self))]
    exact ih fun x hx => h x (List.mem_cons_of_mem _ hx)

private theorem step_of_visible (stack : Stack) {t : Token} (hv : t.isBlank = false)
    (ht : t.nests = false) :
    step { stack } t =
      .ok ({ stack, started := true, level := nextLevel stack, offset := t.offset }, t) := by
  rw [Token.nests, Bool.or_eq_false_iff] at ht
  rw [step_of_open (Or.inr hv) ht.2]
  simp [start, push, ht.1]

/-- White space in front of a line leads nowhere. -/
theorem walk_dropWhile (stack : Stack) (tokens : List Token) :
    (walk { stack } tokens).1 = (walk { stack } (tokens.dropWhile Token.isBlank)).1 ∧
      (walk { stack } tokens).2.2 = (walk { stack } (tokens.dropWhile Token.isBlank)).2.2 := by
  have hfront : ∀ t ∈ tokens.takeWhile Token.isBlank, t.isBlank = true :=
    List.all_eq_true.1 List.all_takeWhile
  have hw := walk_blanks stack hfront (tokens.dropWhile Token.isBlank)
  rw [List.takeWhile_append_dropWhile] at hw
  exact hw

theorem isBlank_of_dropWhile {tokens rest : List Token} {t : Token}
    (h : tokens.dropWhile Token.isBlank = t :: rest) : t.isBlank = false := by
  have hne : tokens.dropWhile Token.isBlank ≠ [] := by
    rw [h]
    simp
  have hhead := List.head_dropWhile_not Token.isBlank hne
  simpa [h] using hhead

/-- Lines with the same outline take a walk to the same place. -/
theorem walk_of_outline {l l' : Line} (h : l.outline = l'.outline) (stack : Stack) :
    (walk { stack } l.tokens).1 = (walk { stack } l'.tokens).1 ∧
      (walk { stack } l.tokens).2.2 = (walk { stack } l'.tokens).2.2 := by
  obtain ⟨hp, he⟩ := walk_dropWhile stack l.tokens
  obtain ⟨hp', he'⟩ := walk_dropWhile stack l'.tokens
  rw [hp, he, hp', he']
  unfold Line.outline at h
  cases hd : l.tokens.dropWhile Token.isBlank with
  | nil =>
    rw [hd] at h
    cases hd' : l'.tokens.dropWhile Token.isBlank with
    | nil => exact ⟨rfl, rfl⟩
    | cons t' rest' =>
      rw [hd'] at h
      exact absurd h (by simp)
  | cons t rest =>
    rw [hd] at h
    cases hd' : l'.tokens.dropWhile Token.isBlank with
    | nil =>
      rw [hd'] at h
      exact absurd h (by simp)
    | cons t' rest' =>
      rw [hd'] at h
      obtain ⟨hoffset, hleads, hnesting⟩ := Outline.mk.inj (Option.some.inj h)
      have hv := isBlank_of_dropWhile hd
      have hv' := isBlank_of_dropWhile hd'
      by_cases ht : t.nests = true
      · -- the same token leads both lines
        rw [List.filter_cons_of_pos ht, List.filter_cons_of_pos (hleads ▸ ht)] at hnesting
        obtain ⟨rfl, hrest⟩ := List.cons.inj hnesting
        cases hs : step { stack } t with
        | error e =>
          rw [walk_of_error hs, walk_of_error hs]
          exact ⟨rfl, rfl⟩
        | ok r =>
          have hstarted := started_of_step (Or.inr hv) hs
          obtain ⟨hp, he⟩ := walk_filter hstarted rest
          obtain ⟨hp', he'⟩ := walk_filter hstarted rest'
          rw [walk_of_ok hs, walk_of_ok hs, hp, he, hp', he', hrest]
          exact ⟨rfl, rfl⟩
      · -- a token that only shows, in both lines
        have ht' : ¬ t'.nests = true := hleads ▸ ht
        rw [List.filter_cons_of_neg ht, List.filter_cons_of_neg ht'] at hnesting
        have hs := step_of_visible stack hv (by simpa using ht)
        have hs' := step_of_visible stack hv' (by simpa using ht')
        rw [← hoffset] at hs'
        obtain ⟨p, hp⟩ : ∃ p : Progress, p = { stack, started := true, level := nextLevel stack,
                                               offset := t.offset } := ⟨_, rfl⟩
        rw [← hp] at hs hs'
        have hstarted : p.started = true := by rw [hp]
        obtain ⟨hp, he⟩ := walk_filter hstarted rest
        obtain ⟨hp', he'⟩ := walk_filter hstarted rest'
        rw [walk_of_ok hs, walk_of_ok hs', hp, he, hp', he', hnesting]
        exact ⟨rfl, rfl⟩

end Progress

end Scope
end Reindent
