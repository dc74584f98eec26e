import Mathlib.Data.List.Forall2
import Reindent.Proofs.Embedding.Reading
import Reindent.Proofs.Layout.Nesting
import Reindent.Proofs.Matching.Openers
import Reindent.Proofs.Outline

/-! The scope pass inside an outer scope: what nests alone nests there one level deeper. -/
namespace Reindent
open Scope

/-- Tokens that differ in their place only. -/
structure Token.Same (t t' : Token) : Prop where
  text : t'.text = t.text
  kind : t'.kind = t.kind
  indents : t'.indents = t.indents
  dedents : t'.dedents = t.dedents
  ignore : t'.ignore = t.ignore
  offset : t'.offset = t.offset

namespace Token.Same

theorem isBlank {t t' : Token} (h : Same t t') : t'.isBlank = t.isBlank := by
  unfold Token.isBlank
  rw [h.text]

theorem of_numbered (number : Int64) (t : Token) : Same t (t.numbered number) :=
  ⟨rfl, rfl, rfl, rfl, rfl, rfl⟩

theorem leveled {t t' : Token} (h : Same t t') (level level' : Int64) :
    Same { t with level } { t' with level := level' } :=
  ⟨h.text, h.kind, h.indents, h.dedents, h.ignore, h.offset⟩

end Token.Same

/-- The second line has the tokens of the first and stands one level deeper. -/
structure Line.Deeper (l l' : Line) : Prop where
  tokens : List.Forall₂ Token.Same l.tokens l'.tokens
  offset : l'.offset = l.offset
  ignore : l'.ignore = l.ignore
  level : l.isBlank = false → l'.level = l.level + 1

namespace Scope

/-- Open tokens of the same kind, the second one level deeper. -/
structure Raised (t t' : Token) : Prop where
  kind : t.kind = t'.kind
  level : t'.level = t.level + 1

namespace Progress

/-- Where two passes are, the second inside the scope of `outer`. -/
structure Within (outer : Token) (p p' : Progress) : Prop where
  stack : ∃ stack, p'.stack = stack ++ [outer] ∧ List.Forall₂ Raised p.stack stack
  started : p'.started = p.started
  level : p.started = true → p'.level = p.level + 1
  offset : p'.offset = p.offset

namespace Within
variable {outer t t' : Token} {p p' : Progress}

theorem nextLevel (h : Within outer p p') (houter : outer.level = 0) :
    Scope.nextLevel p'.stack = Scope.nextLevel p.stack + 1 := by
  obtain ⟨stack, hp', hstack⟩ := h.stack
  rw [hp']
  generalize p.stack = inner at hstack
  cases hstack with
  | nil =>
    change outer.level + 1 = 0 + 1
    rw [houter]
  | cons htop _ => exact congrArg (· + 1) htop.level

theorem start (h : Within outer p p') (ht : Token.Same t t') (level : Int64) :
    Within outer (p.start t level) (p'.start t' (level + 1)) where
  stack := by
    rw [stack_start, stack_start]
    exact h.stack
  started := by rw [started_start, started_start]
  level := by
    intro _
    rw [level_start, level_start, h.started]
    split_ifs with hs
    · exact h.level hs
    · rfl
  offset := by rw [offset_start, offset_start, h.started, h.offset, ht.offset]

theorem push (h : Within outer p p') (ht : Token.Same t t') (level : Int64) :
    Within outer (p.push t level).1 (p'.push t' (level + 1)).1 where
  stack := by
    obtain ⟨stack, hp', hstack⟩ := h.stack
    rw [stack_push, stack_push, hp', ht.indents]
    split_ifs
    · exact ⟨_ :: stack, rfl, .cons ⟨ht.kind.symm, rfl⟩ hstack⟩
    · exact ⟨stack, rfl, hstack⟩
  started := by rw [started_push, started_push, h.started]
  level := by
    rw [started_push, level_push, level_push]
    exact h.level
  offset := by rw [offset_push, offset_push, h.offset]

end Within

theorem same_push {t t' : Token} (ht : Token.Same t t') (p p' : Progress) (level level' : Int64) :
    Token.Same (p.push t level).2 (p'.push t' level').2 := by
  unfold push
  by_cases hi : t.indents = true
  · rw [if_pos hi, if_pos (ht.indents.trans hi)]
    exact ht.leveled level level'
  · rw [if_neg hi, if_neg (ht.indents ▸ hi)]
    exact ht

namespace Within
variable {outer t t' u : Token} {p p' p₁ : Progress}

theorem close (h : Within outer p p') (ht : Token.Same t t') {opener : Token} {rest : Stack}
    (hc : Scope.close p.stack t = .ok (opener, rest)) :
    ∃ opener' rest', Scope.close p'.stack t' = .ok (opener', rest') ∧
      opener'.level = opener.level + 1 ∧ Within outer { p with stack := rest }
        { p' with stack := rest' } := by
  obtain ⟨stack, hp', hstack⟩ := h.stack
  obtain ⟨opener', rest', htakes, hopener, hrest⟩ :=
    (close_iff.1 hc).beside (fun _ _ hraised => hraised.kind) hstack
  refine ⟨opener', rest' ++ [outer], ?_, hopener.level, ⟨rest', rfl, hrest⟩, h.started, h.level,
    h.offset⟩
  rw [hp', close_iff, ht.kind]
  exact htakes.append [outer]

theorem step (h : Within outer p p') (houter : outer.level = 0) (ht : Token.Same t t')
    (hs : p.step t = .ok (p₁, u)) :
    ∃ p₁' u', p'.step t' = .ok (p₁', u') ∧ Within outer p₁ p₁' ∧ Token.Same u u' := by
  by_cases hv : p.started = true ∨ t.isBlank = false
  · have hv' : p'.started = true ∨ t'.isBlank = false := by
      rw [h.started, ht.isBlank]
      exact hv
    cases hd : t.dedents with
    | false =>
      rw [step_of_open hv hd] at hs
      obtain ⟨rfl, rfl⟩ := Prod.mk.inj (Except.ok.inj hs)
      have hstart := h.start ht (Scope.nextLevel p.stack)
      rw [step_of_open hv' (ht.dedents.trans hd), h.nextLevel houter,
        hstart.level (started_start p t _)]
      exact ⟨_, _, rfl, hstart.push ht _, same_push ht _ _ _ _⟩
    | true =>
      cases hc : Scope.close p.stack t with
      | error e =>
        rw [step_of_error hv hd hc] at hs
        exact absurd hs (by simp)
      | ok r =>
        obtain ⟨opener, rest⟩ := r
        rw [step_of_close hv hd hc] at hs
        obtain ⟨rfl, rfl⟩ := Prod.mk.inj (Except.ok.inj hs)
        obtain ⟨opener', rest', hc', hlevel, hwithin⟩ := h.close ht hc
        rw [step_of_close hv' (ht.dedents.trans hd) hc', hlevel]
        exact ⟨_, _, rfl, (hwithin.start ht _).push ht _, same_push ht _ _ _ _⟩
  · -- blank tokens in front of a line are skipped in both passes
    rw [not_or, Bool.not_eq_true, Bool.not_eq_false] at hv
    rw [step_of_blank hv.1 hv.2] at hs
    obtain ⟨rfl, rfl⟩ := Prod.mk.inj (Except.ok.inj hs)
    exact ⟨p', t', step_of_blank (h.started.trans hv.1) (ht.isBlank.trans hv.2), h, ht⟩

theorem walk (h : Within outer p p') (houter : outer.level = 0) {tokens tokens' : List Token}
    (ht : List.Forall₂ Token.Same tokens tokens') (hw : (p.walk tokens).2.2 = none) :
    Within outer (p.walk tokens).1 (p'.walk tokens').1 ∧
      List.Forall₂ Token.Same (p.walk tokens).2.1 (p'.walk tokens').2.1 ∧
      (p'.walk tokens').2.2 = none := by
  induction ht generalizing p p' with
  | nil => exact ⟨h, .nil, rfl⟩
  | @cons t t' rest rest' ht _ ih =>
    cases hs : p.step t with
    | error e =>
      rw [walk_of_error hs] at hw
      exact absurd hw (by simp)
    | ok r =>
      obtain ⟨p₁', u', hs', hwithin, hsame⟩ := h.step houter ht hs
      rw [walk_of_ok hs] at hw ⊢
      rw [walk_of_ok hs']
      obtain ⟨hrest, htokens, herror⟩ := ih hwithin hw
      exact ⟨hrest, .cons hsame htokens, herror⟩

end Within

theorem started_walk {p : Progress} {tokens : List Token} (hw : (p.walk tokens).2.2 = none)
    (hv : p.started = true ∨ tokens.all Token.isBlank = false) :
    (p.walk tokens).1.started = true := by
  induction tokens generalizing p with
  | nil => exact hv.resolve_right (by simp)
  | cons t rest ih =>
    cases hs : p.step t with
    | error e =>
      rw [walk_of_error hs] at hw
      exact absurd hw (by simp)
    | ok r =>
      obtain ⟨p₁, u⟩ := r
      rw [walk_of_ok hs] at hw ⊢
      apply ih hw
      by_cases hnow : p.started = true ∨ t.isBlank = false
      · exact Or.inl (started_of_step hnow hs)
      · rw [not_or, Bool.not_eq_false] at hnow
        refine Or.inr ?_
        simpa [hnow.2, hnow.1] using hv

end Progress

variable {outer : Token}

theorem isBlank_passLine (stack : Stack) (l : Line) :
    (passLine stack l).2.1.isBlank = l.isBlank := by
  have htexts : ∀ tokens : List Token,
      tokens.all Token.isBlank = (tokens.map Token.text).all Text.allBlank := by
    intro tokens
    rw [List.all_map]
    rfl
  unfold Line.isBlank
  rw [htexts, htexts l.tokens]
  exact congrArg (·.all Text.allBlank) (Progress.texts_walk { stack } l.tokens)

/-- A line inside an outer scope. -/
theorem passLine_within (houter : outer.level = 0) {stack stack' : Stack}
    (hstack : List.Forall₂ Raised stack stack') (number : Int64) {l : Line}
    (h : (passLine stack l).2.2 = none) :
    ∃ after, (passLine (stack' ++ [outer]) (l.renumber number)).1 = after ++ [outer] ∧
      List.Forall₂ Raised (passLine stack l).1 after ∧
      (passLine stack l).2.1.Deeper (passLine (stack' ++ [outer]) (l.renumber number)).2.1 ∧
      (passLine (stack' ++ [outer]) (l.renumber number)).2.2 = none := by
  have hsame : List.Forall₂ Token.Same l.tokens (l.renumber number).tokens := by
    unfold Line.renumber
    rw [List.forall₂_map_right_iff, List.forall₂_same]
    exact fun t _ => Token.Same.of_numbered number t
  have hwithin : Progress.Within outer { stack } { stack := stack' ++ [outer] } :=
    ⟨⟨stack', rfl, hstack⟩, rfl, by simp, rfl⟩
  obtain ⟨hend, htokens, herror⟩ := hwithin.walk houter hsame h
  obtain ⟨after, hafter, hraised⟩ := hend.stack
  refine ⟨after, hafter, hraised, ⟨htokens, hend.offset, ?_, ?_⟩, herror⟩
  · change (l.renumber number).tokens.head?.any Token.ignore = l.tokens.head?.any Token.ignore
    generalize l.tokens = tokens at hsame
    generalize (l.renumber number).tokens = tokens' at hsame
    cases hsame with
    | nil => rfl
    | cons ht _ => exact ht.ignore
  · intro hv
    apply hend.level
    apply Progress.started_walk h
    rw [isBlank_passLine] at hv
    exact Or.inr hv

/-- All lines inside an outer scope, and what comes behind them. -/
theorem passLines_within (houter : outer.level = 0) {stack stack' : Stack}
    (hstack : List.Forall₂ Raised stack stack') {lines lines' : List Line}
    (hlines : List.Forall₂ (fun l l' => ∃ n, l' = l.renumber n) lines lines')
    (h : (passLines stack lines).error? = none) (behind : List Line) :
    ∃ after inner, List.Forall₂ Raised (passLines stack lines).stack after ∧
      List.Forall₂ Line.Deeper (passLines stack lines).lines inner ∧
      passLines (stack' ++ [outer]) (lines' ++ behind) =
        (passLines (after ++ [outer]) behind).prepend inner := by
  induction hlines generalizing stack stack' with
  | nil => exact ⟨stack', [], hstack, .nil, rfl⟩
  | @cons l l' lines lines' hl _ ih =>
    obtain ⟨number, rfl⟩ := hl
    cases hpassed : (passLine stack l).2.2 with
    | some e =>
      rw [passLines_of_error hpassed] at h
      exact absurd h (by simp)
    | none =>
      rw [passLines_of_ok hpassed] at h ⊢
      obtain ⟨after, hafter, hraised, hdeeper, herror⟩ := passLine_within houter hstack number
        hpassed
      obtain ⟨last, inner, hlast, hinner, hpass⟩ := ih hraised h
      refine ⟨last, _ :: inner, hlast, .cons hdeeper hinner, ?_⟩
      rw [List.cons_append, passLines_of_ok herror, hafter, hpass]
      rfl

/-- What nests alone nests between a line that opens a scope and one that closes it. -/
theorem assign_within {first last : Line} {lines lines' inner : List Line} {level level' : Int64}
    (hfirst : Passes [] [outer] level first) (houter : outer.level = 0)
    (hlast : Passes [outer] [] level' last)
    (hlines : List.Forall₂ (fun l l' => ∃ n, l' = l.renumber n) lines lines')
    (h : assign lines = .ok inner) :
    ∃ first' inner' last', assign (first :: (lines' ++ [last])) =
        .ok (first' :: (inner' ++ [last'])) ∧ List.Forall₂ Line.Deeper inner inner' := by
  rw [assign_eq] at h
  split at h
  · exact absurd h (by simp)
  · exact absurd h (by simp)
  · next herror hstack =>
    obtain rfl := Except.ok.inj h
    obtain ⟨after, inner', hafter, hinner, hpass⟩ :=
      passLines_within houter .nil hlines herror [last]
    rw [hstack, List.forall₂_nil_left_iff] at hafter
    subst hafter
    rw [List.nil_append, passLines_of_passes hlast] at hpass
    refine ⟨(passLine [] first).2.1, inner', (passLine [outer] last).2.1, ?_, hinner⟩
    rw [assign_eq, passLines_of_passes hfirst, hpass]
    rfl

end Scope
end Reindent
