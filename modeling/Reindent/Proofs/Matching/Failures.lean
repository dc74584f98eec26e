import Reindent.Error
import Reindent.Proofs.Matching.Openers
import Reindent.Proofs.Outline

/-! Passes that fail at a closing token. Such a pass stops in front of the token: what came before
it has its levels, and the token and all that follows it stay as they are. -/
namespace Reindent.Scope

theorem token_of_close {stack : Stack} {t : Token} {e : ScopeError} (h : close stack t = .error e) :
    e.token = t ∧ ∀ opener, e ≠ .neverClosed opener := by
  cases stack with
  | nil =>
    have he : ScopeError.closesNothing t = e := Except.error.inj h
    rw [← he]
    exact ⟨rfl, by simp⟩
  | cons top rest =>
    have hmismatch : ScopeError.kindMismatch t top = e → e.token = t ∧
        ∀ opener, e ≠ .neverClosed opener := by
      intro he
      rw [← he]
      exact ⟨rfl, by simp⟩
    unfold close at h
    dsimp only at h
    split at h
    · split at h
      · exact absurd h (by simp)
      · have he : ScopeError.closesNoTemplate t = e := Except.error.inj h
        rw [← he]
        exact ⟨rfl, by simp⟩
    · split at h
      · exact absurd h (by simp)
      · exact hmismatch (Except.error.inj h)
    · split_ifs at h
      exact hmismatch (Except.error.inj h)

/-- What a closing token takes off the stack, by the reach of its kind. -/
theorem Takes.cases {closer : Kind} {stack rest : Stack} {opener : Token}
    (h : Takes Token.kind closer stack opener rest) :
    ∃ inner outer, stack = inner ++ opener :: outer ∧ opener.kind = closer ∧
      (closer = .template → (∀ t ∈ inner, t.kind ≠ .template) ∧ rest = inner ++ outer) ∧
      (closer = .switch → (∀ t ∈ inner, t.kind = .case) ∧ rest = outer) ∧
      (closer ≠ .template → closer ≠ .switch → inner = [] ∧ rest = outer) := by
  obtain ⟨inner, outer, hstack, hpasses, hkind, hrest⟩ := h
  refine ⟨inner, outer, hstack, hkind, fun hc => ?_, fun hc => ?_, fun htemplate hswitch => ?_⟩
  · subst hc
    have hinner : ∀ t ∈ inner, t.kind ≠ .template := fun t ht => by
      simpa [Kind.passes] using hpasses t ht
    exact ⟨hinner, hrest⟩
  · subst hc
    have hinner : ∀ t ∈ inner, t.kind = .case := fun t ht => by
      simpa [Kind.passes] using hpasses t ht
    exact ⟨hinner, hrest⟩
  · rw [if_neg htemplate, List.nil_append] at hrest
    have hnone : ∀ kind, closer.passes kind = false := by
      intro kind
      cases closer with
      | template => exact absurd rfl htemplate
      | switch => exact absurd rfl hswitch
      | _ => rfl
    have hnil : inner = [] := by
      rw [List.eq_nil_iff_forall_not_mem]
      intro t ht
      exact absurd ((hnone t.kind).symm.trans (hpasses t ht)) Bool.false_ne_true
    exact ⟨hnil, hrest⟩

namespace Progress
variable {p : Progress} {t : Token} {e : ScopeError}

/-- A token that stops a walk counts for nesting, and closes what it cannot close. -/
theorem close_of_step (h : p.step t = .error e) :
    (p.started = true ∨ t.isBlank = false) ∧ t.dedents = true ∧ close p.stack t = .error e := by
  by_cases hskip : p.started = false ∧ t.isBlank = true
  · rw [step_of_blank hskip.1 hskip.2] at h
    exact absurd h (by simp)
  · have hv : p.started = true ∨ t.isBlank = false := by
      rwa [not_and_or, Bool.not_eq_false, Bool.not_eq_true] at hskip
    cases hd : t.dedents with
    | false =>
      rw [step_of_open hv hd] at h
      exact absurd h (by simp)
    | true =>
      cases hc : close p.stack t with
      | ok r =>
        rw [step_of_close hv hd hc] at h
        exact absurd h (by simp)
      | error e' =>
        rw [step_of_error hv hd hc] at h
        exact ⟨hv, rfl, congrArg Except.error (Except.error.inj h)⟩

theorem length_walk (p : Progress) (tokens : List Token) :
    (p.walk tokens).2.1.length = tokens.length := by
  have htexts := congrArg List.length (texts_walk p tokens)
  rwa [List.length_map, List.length_map] at htexts

theorem exists_failing_token {tokens : List Token} (h : (p.walk tokens).2.2 = some e) :
    ∃ before t after, tokens = before ++ t :: after ∧ (p.walk before).2.2 = none ∧
      ((p.walk before).1.started = true ∨ t.isBlank = false) ∧ t.dedents = true ∧
      close (p.walk before).1.stack t = .error e ∧
      p.walk tokens = ((p.walk before).1, (p.walk before).2.1 ++ t :: after, some e) := by
  induction tokens generalizing p with
  | nil => exact absurd h (by simp [walk])
  | cons t rest ih =>
    cases hs : p.step t with
    | error e' =>
      have hwalk := walk_of_error hs rest
      have he : e' = e := by
        rw [hwalk] at h
        exact Option.some.inj h
      rw [he] at hwalk hs
      obtain ⟨hv, hd, hclose⟩ := close_of_step hs
      exact ⟨[], t, rest, rfl, rfl, hv, hd, hclose, hwalk⟩
    | ok r =>
      have hwalk := walk_of_ok hs rest
      rw [hwalk] at h
      obtain ⟨before, u, after, hrest, hnone, hv, hd, hclose, hfails⟩ := ih h
      have hbefore := walk_of_ok hs before
      refine ⟨t :: before, u, after, by rw [hrest]; rfl, ?_, ?_, hd, ?_, ?_⟩
      · rw [hbefore]
        exact hnone
      · rw [hbefore]
        exact hv
      · rw [hbefore]
        exact hclose
      · rw [hwalk, hfails, hbefore]
        rfl

end Progress

/-- The line that a pass fails at. -/
theorem exists_failing_line {stack : Stack} {lines : List Line} {e : ScopeError}
    (h : (passLines stack lines).error? = some e) :
    ∃ above line below, lines = above ++ line :: below ∧ (passLines stack above).error? = none ∧
      (passLine (passLines stack above).stack line).2.2 = some e ∧
      passLines stack lines =
        { stack := (passLine (passLines stack above).stack line).1,
          lines := (passLines stack above).lines ++
            (passLine (passLines stack above).stack line).2.1 :: below,
          error? := some e } := by
  induction lines generalizing stack with
  | nil => exact absurd h (by simp [passLines])
  | cons line rest ih =>
    cases hline : (passLine stack line).2.2 with
    | some e' =>
      have hpass := passLines_of_error hline rest
      have he : e' = e := by
        rw [hpass] at h
        exact Option.some.inj h
      rw [he] at hpass hline
      exact ⟨[], line, rest, rfl, rfl, hline, hpass⟩
    | none =>
      have hpass := passLines_of_ok hline rest
      rw [hpass] at h
      obtain ⟨above, line', below, hrest, hnone, herror, hfails⟩ := ih h
      have habove := passLines_of_ok hline above
      refine ⟨line :: above, line', below, by rw [hrest]; rfl, ?_, ?_, ?_⟩
      · rw [habove]
        exact hnone
      · rw [habove]
        exact herror
      · rw [hpass, hfails, habove]
        rfl

def upTo (above : List Line) (line : Line) (before : List Token) : List Line :=
  above ++ [{ line with tokens := before }]

/-- A pass over lines fails at the token `t`, which stands between `before` and `after` on its
line. -/
structure FailsAt (stack : Stack) (lines above : List Line) (line : Line) (below : List Line)
    (before : List Token) (t : Token) (after : List Token) (e : ScopeError) : Prop where
  lines_eq : lines = above ++ line :: below
  tokens_eq : line.tokens = before ++ t :: after
  above_ok : (passLines stack above).error? = none
  counts : t.isBlank = false ∨ before.dropWhile Token.isBlank ≠ []
  dedents : t.dedents = true
  reached : (passLines stack (upTo above line before)).error? = none
  unmatched : close (passLines stack (upTo above line before)).stack t = .error e
  stack_eq : (passLines stack lines).stack = (passLines stack (upTo above line before)).stack
  placed : ∃ line' before', (passLines stack lines).lines =
    (passLines stack above).lines ++ line' :: below ∧ line'.tokens = before' ++ t :: after ∧
    before'.length = before.length

/-- A pass over lines that fails does so at a closing token. -/
theorem exists_failsAt {stack : Stack} {lines : List Line} {e : ScopeError}
    (h : (passLines stack lines).error? = some e) :
    ∃ above line below before t after, FailsAt stack lines above line below before t after e := by
  obtain ⟨above, line, below, hlines, hnone, herror, hpass⟩ := exists_failing_line h
  obtain ⟨before, t, after, htokens, hbefore, hv, hd, hclose, hwalk⟩ :=
    Progress.exists_failing_token herror
  have hupTo := passLines_append hnone [{ line with tokens := before }]
  have hline : (passLine (passLines stack above).stack { line with tokens := before }).2.2 = none :=
    hbefore
  have hsingle : passLines (passLines stack above).stack [{ line with tokens := before }] =
      { stack := (Progress.walk { stack := (passLines stack above).stack } before).1.stack,
        lines := [(passLine (passLines stack above).stack { line with tokens := before }).2.1] } :=
    passLines_of_ok hline []
  rw [hsingle] at hupTo
  have hcounts : t.isBlank = false ∨ before.dropWhile Token.isBlank ≠ [] := by
    refine hv.symm.imp_right fun hstarted hnil => ?_
    rw [(Progress.walk_dropWhile _ before).1, hnil] at hstarted
    exact absurd hstarted Bool.false_ne_true
  refine ⟨above, line, below, before, t, after, hlines, htokens, hnone, hcounts, hd, ?_, ?_, ?_, ?_⟩
  · rw [upTo, hupTo]
  · rw [upTo, hupTo]
    exact hclose
  · rw [upTo, hupTo, hpass]
    exact congrArg (fun r => r.1.stack) hwalk
  · refine ⟨_, _, congrArg Pass.lines hpass, congrArg (fun r => r.2.1) hwalk, ?_⟩
    exact Progress.length_walk _ before

/-- A pass that fails at a closing token leaves the scopes as they were in front of it. The lines
above are as a pass over them alone leaves them; the token itself and everything behind it do not
change. A closing token that finds what it closes takes that off the stack, the body of a switch
statement with the labels inside, and nothing else. -/
theorem pass_of_failing_close {stack : Stack} {lines : List Line} {e : ScopeError}
    (h : (pass stack lines).error? = some e) (he : ∀ opener, e ≠ .neverClosed opener) :
    (∃ above line below before t after line' before',
      lines = above ++ line :: below ∧ line.tokens = before ++ t :: after ∧
      (passLines stack (upTo above line before)).error? = none ∧
      close (pass stack (upTo above line before)).stack t = .error e ∧ e.token = t ∧
      (pass stack lines).stack = (pass stack (upTo above line before)).stack ∧
      (pass stack lines).lines = (pass stack above).lines ++ line' :: below ∧
      line'.tokens = before' ++ t :: after ∧ before'.length = before.length) ∧
    ∀ (stack rest : Stack) (t opener : Token), close stack t = .ok (opener, rest) →
      ∃ inner outer, stack = inner ++ opener :: outer ∧ opener.kind = t.kind ∧
        (t.kind = .template → (∀ x ∈ inner, x.kind ≠ .template) ∧ rest = inner ++ outer) ∧
        (t.kind = .switch → (∀ x ∈ inner, x.kind = .case) ∧ rest = outer) ∧
        (t.kind ≠ .template → t.kind ≠ .switch → inner = [] ∧ rest = outer) := by
  constructor
  · have herror : (passLines stack lines).error? = some e := by
      rw [error_pass] at h
      cases hlines : (passLines stack lines).error? with
      | some e' =>
        rw [hlines] at h
        exact h
      | none =>
        rw [hlines, Option.none_or] at h
        obtain ⟨opener, -, hopener⟩ := Option.map_eq_some_iff.1 h
        exact absurd hopener.symm (he opener)
    obtain ⟨above, line, below, before, t, after, hfails⟩ := exists_failsAt herror
    obtain ⟨line', before', hplaced, htokens, hlength⟩ := hfails.placed
    refine ⟨above, line, below, before, t, after, line', before', hfails.lines_eq, hfails.tokens_eq,
      hfails.reached, ?_, (token_of_close hfails.unmatched).1, ?_, ?_, htokens, hlength⟩
    · rw [stack_pass]
      exact hfails.unmatched
    · rw [stack_pass, stack_pass]
      exact hfails.stack_eq
    · rw [lines_pass, lines_pass]
      exact hplaced
  · intro stack rest t opener hclose
    exact (close_iff.1 hclose).cases

/-- A block that an end tag stands in, in a list that was left open. The lines have levels from
before. -/
def interruptedLines : List Line :=
  [[.opening (Bytes.ascii "if") .template],
    [.plain (Bytes.ascii "a") .text, .closing (Bytes.ascii "</ul>") .markup],
    [.plain (Bytes.ascii "b") .text]].map fun tokens => { number := 1, tokens, level := 7 }

theorem pass_of_failing_close_interrupted :
    ∃ above line below before t after line' before', interruptedLines = above ++ line :: below ∧
      line.tokens = before ++ t :: after ∧ t = .closing (Bytes.ascii "</ul>") .markup ∧
      (pass [.opening (Bytes.ascii "<ul>") .markup] interruptedLines).lines =
        (pass [.opening (Bytes.ascii "<ul>") .markup] above).lines ++ line' :: below ∧
      line'.tokens = before' ++ t :: after := by
  have herror : (pass [.opening (Bytes.ascii "<ul>") .markup] interruptedLines).error? =
      some (.kindMismatch (.closing (Bytes.ascii "</ul>") .markup)
        { Token.opening (Bytes.ascii "if") .template with level := 1 }) := by
    decide
  obtain ⟨⟨above, line, below, before, t, after, line', before', hlines, htokens, -, -, ht, -,
    hplaced, hkept, -⟩, -⟩ := pass_of_failing_close herror (by simp)
  exact ⟨above, line, below, before, t, after, line', before', hlines, htokens, ht.symm, hplaced,
    hkept⟩

end Reindent.Scope
