import Reindent.Proofs.Noninterference.Back

/-! The scope pass over two documents that look alike. Offsets have no say in nesting, and lines that
hold nothing but verbatim text leave no trace on the lines around them. -/
namespace Reindent

namespace Token

theorem Mute.unshifted {t : Token} (h : t.Mute) : t.unshifted.Mute := ⟨h.ignore, h.nests, rfl⟩

end Token

namespace ScopeError

def unshifted : ScopeError → ScopeError
  | .closesNothing t => .closesNothing t.unshifted
  | .closesNoTemplate t => .closesNoTemplate t.unshifted
  | .kindMismatch t opener => .kindMismatch t.unshifted opener.unshifted
  | .neverClosed t => .neverClosed t.unshifted

theorem report_unshifted (e : ScopeError) : e.unshifted.report = e.report := by
  cases e <;> rfl

end ScopeError

namespace Scope

def Stack.unshifted (stack : Stack) : Stack := stack.map Token.unshifted

namespace Progress

def unshifted (p : Progress) : Progress :=
  { p with stack := Stack.unshifted p.stack, offset := 0 }

end Progress

/-- What is left of a result without the offsets in it. -/
private def unshiftedClose : Except ScopeError (Token × Stack) → Except ScopeError (Token × Stack)
  | .error e => .error e.unshifted
  | .ok r => .ok (r.1.unshifted, Stack.unshifted r.2)

private def unshiftedStep :
    Except ScopeError (Progress × Token) → Except ScopeError (Progress × Token)
  | .error e => .error e.unshifted
  | .ok r => .ok (r.1.unshifted, r.2.unshifted)

private theorem takeTemplate?_unshifted (stack : Stack) :
    takeTemplate? (Stack.unshifted stack) =
      (takeTemplate? stack).map fun r => (r.1.unshifted, Stack.unshifted r.2) := by
  induction stack with
  | nil => rfl
  | cons t rest ih =>
    change takeTemplate? (t.unshifted :: Stack.unshifted rest) = _
    rw [takeTemplate?, takeTemplate?, ih]
    change (if t.kind = .template then _ else _) = _
    split_ifs
    · rfl
    · cases takeTemplate? rest with
      | none => rfl
      | some r => rfl

private theorem takeSwitch?_unshifted (stack : Stack) :
    takeSwitch? (Stack.unshifted stack) =
      (takeSwitch? stack).map fun r => (r.1.unshifted, Stack.unshifted r.2) := by
  have hdrop : (Stack.unshifted stack).dropWhile (·.kind = .case) =
      Stack.unshifted (stack.dropWhile (·.kind = .case)) := by
    unfold Stack.unshifted
    rw [List.dropWhile_map]
    rfl
  unfold takeSwitch?
  rw [hdrop]
  cases stack.dropWhile (·.kind = .case) with
  | nil => rfl
  | cons t rest =>
    change (if t.kind = .switch then _ else _) = Option.map _ (if t.kind = .switch then _ else _)
    split_ifs
    · rfl
    · rfl

/-- Offsets have no say in what a token closes. -/
private theorem close_unshifted (stack : Stack) (t : Token) :
    close (Stack.unshifted stack) t.unshifted = unshiftedClose (close stack t) := by
  cases stack with
  | nil => rfl
  | cons top rest =>
    have htemplate := takeTemplate?_unshifted (top :: rest)
    have hswitch := takeSwitch?_unshifted (top :: rest)
    change close (top.unshifted :: Stack.unshifted rest) t.unshifted = _
    change takeTemplate? (top.unshifted :: Stack.unshifted rest) = _ at htemplate
    change takeSwitch? (top.unshifted :: Stack.unshifted rest) = _ at hswitch
    have hkind : t.unshifted.kind = t.kind := rfl
    have htop : top.unshifted.kind = top.kind := rfl
    unfold close
    dsimp only
    rw [hkind, htop, htemplate, hswitch]
    cases hk : t.kind with
    | template =>
      dsimp only
      cases takeTemplate? (top :: rest) with
      | none => rfl
      | some r => rfl
    | switch =>
      dsimp only
      cases takeSwitch? (top :: rest) with
      | none => rfl
      | some r => rfl
    | _ =>
      dsimp only
      split_ifs
      · rfl
      · rfl

namespace Progress

theorem nextLevel_unshifted (stack : Stack) :
    nextLevel (Stack.unshifted stack) = nextLevel stack := by
  cases stack with
  | nil => rfl
  | cons t rest => rfl

private theorem start_unshifted (p : Progress) (t : Token) (level : Int64) :
    p.unshifted.start t.unshifted level = (p.start t level).unshifted := by
  unfold start
  change (if p.started then _ else _) = _
  split_ifs
  · rfl
  · rfl

private theorem push_unshifted (p : Progress) (t : Token) (level : Int64) :
    p.unshifted.push t.unshifted level =
      ((p.push t level).1.unshifted, (p.push t level).2.unshifted) := by
  unfold push
  change (if t.indents then _ else _) = _
  split_ifs
  · rfl
  · rfl

private theorem step_unshifted (p : Progress) (t : Token) :
    p.unshifted.step t.unshifted = unshiftedStep (p.step t) := by
  by_cases hskip : p.started = false ∧ t.isBlank = true
  · have hstarted : p.unshifted.started = false := hskip.1
    have hblank : t.unshifted.isBlank = true := hskip.2
    rw [step_of_blank hstarted hblank, step_of_blank hskip.1 hskip.2]
    rfl
  · have hv : p.started = true ∨ t.isBlank = false := by
      rw [not_and_or, Bool.not_eq_false, Bool.not_eq_true] at hskip
      exact hskip
    have hv' : p.unshifted.started = true ∨ t.unshifted.isBlank = false := hv
    by_cases hd : t.dedents = true
    · have hclose := close_unshifted p.stack t
      cases hc : close p.stack t with
      | error e =>
        rw [hc] at hclose
        rw [step_of_error hv hd hc, step_of_error hv' hd hclose]
        rfl
      | ok r =>
        rw [hc] at hclose
        rw [step_of_close hv hd hc, step_of_close hv' hd hclose]
        change Except.ok (((unshifted { p with stack := r.2 }).start t.unshifted _).push _ _) = _
        rw [start_unshifted, push_unshifted]
        rfl
    · have hd' : t.dedents = false := eq_false_of_ne_true hd
      rw [step_of_open hv hd', step_of_open hv' hd']
      have hlevel : nextLevel p.unshifted.stack = nextLevel p.stack := nextLevel_unshifted p.stack
      rw [hlevel, start_unshifted, push_unshifted]
      rfl

/-- Offsets have no say in where a walk ends. -/
theorem walk_unshifted (p : Progress) (tokens : List Token) :
    (p.unshifted.walk (tokens.map Token.unshifted)).1 = (p.walk tokens).1.unshifted ∧
      (p.unshifted.walk (tokens.map Token.unshifted)).2.2 =
        (p.walk tokens).2.2.map ScopeError.unshifted := by
  induction tokens generalizing p with
  | nil => exact ⟨rfl, rfl⟩
  | cons t rest ih =>
    have hstep := step_unshifted p t
    cases hs : p.step t with
    | error e =>
      rw [hs] at hstep
      rw [List.map_cons, walk_of_error hs, walk_of_error hstep]
      exact ⟨rfl, rfl⟩
    | ok r =>
      rw [hs] at hstep
      rw [List.map_cons, walk_of_ok hs, walk_of_ok hstep]
      exact ih r.1

theorem walk_of_not_nests (p : Progress) {tokens : List Token}
    (h : ∀ t ∈ tokens, t.nests = false) :
    (p.walk tokens).1.stack = p.stack ∧ (p.walk tokens).2.2 = none := by
  induction tokens generalizing p with
  | nil => exact ⟨rfl, rfl⟩
  | cons t rest ih =>
    obtain ⟨r, hs, hstack⟩ := p.exists_step_of_not_nests (h t List.mem_cons_self)
    rw [walk_of_ok hs, ← hstack]
    exact ih r.1 fun x hx => h x (List.mem_cons_of_mem _ hx)

end Progress

end Scope

namespace Line

def unshifted (l : Line) : Line := { l with tokens := l.tokens.map Token.unshifted }

/-- The scope pass sees the same of both lines, but for offsets. -/
structure Agrees (l l' : Line) : Prop where
  outline : l'.unshifted.outline = l.unshifted.outline
  startsVerbatim : l'.startsVerbatim = l.startsVerbatim
  level : l'.level = l.level
  ignore : l'.ignore = l.ignore

/-- What the pass says of a line beside its offset. -/
def place (l : Line) : Int64 × Bool := (l.level, l.ignore)

end Line

namespace Scope

/-- Lines that agree are placed alike, and leave alike scopes open. -/
theorem passLine_agrees {stack stack' : Stack} (hs : Stack.unshifted stack' = Stack.unshifted stack)
    {l l' : Line} (h : l.Agrees l') :
    Stack.unshifted (passLine stack' l').1 = Stack.unshifted (passLine stack l).1 ∧
      (passLine stack' l').2.1.place = (passLine stack l).2.1.place ∧
      (passLine stack' l').2.2.map ScopeError.unshifted =
        (passLine stack l).2.2.map ScopeError.unshifted := by
  obtain ⟨hp, he⟩ := Progress.walk_unshifted { stack } l.tokens
  obtain ⟨hp', he'⟩ := Progress.walk_unshifted { stack := stack' } l'.tokens
  obtain ⟨hwalk, herror⟩ := Progress.walk_of_outline h.outline (Stack.unshifted stack)
  have hsame : (Progress.walk { stack := stack' } l'.tokens).1.unshifted =
      (Progress.walk { stack } l.tokens).1.unshifted := by
    rw [← hp, ← hp']
    change (Progress.walk { stack := Stack.unshifted stack' } _).1 = _
    rw [hs]
    exact hwalk
  refine ⟨congrArg Progress.stack hsame, ?_, ?_⟩
  · have hlevel := congrArg Progress.level hsame
    exact Prod.ext hlevel h.startsVerbatim
  · change Option.map _ (Progress.walk { stack := stack' } l'.tokens).2.2 =
      Option.map _ (Progress.walk { stack } l.tokens).2.2
    rw [← he, ← he']
    change (Progress.walk { stack := Stack.unshifted stack' } _).2.2 = _
    rw [hs]
    exact herror

/-- Two lists of lines that agree wherever they are seen, and hold nothing that nests elsewhere. -/
structure Veils (seen : Nat → Prop) (lines lines' : List Line) : Prop where
  length : lines'.length = lines.length
  agrees : ∀ i, seen i → ∀ l ∈ lines[i]?, ∀ l' ∈ lines'[i]?, l.Agrees l'
  mute : ∀ i, ¬ seen i → ∀ l, l ∈ lines[i]? ∨ l ∈ lines'[i]? → ∀ t ∈ l.tokens, t.nests = false

theorem Veils.tail {seen : Nat → Prop} {l l' : Line} {lines lines' : List Line}
    (h : Veils seen (l :: lines) (l' :: lines')) : Veils (fun i => seen (i + 1)) lines lines' where
  length := Nat.succ.inj h.length
  agrees := fun i hi => h.agrees (i + 1) hi
  mute := fun i hi => h.mute (i + 1) hi

theorem Veils.places {seen : Nat → Prop} {lines lines' : List Line} (h : Veils seen lines lines')
    (i : Nat) (hi : seen i) : lines'[i]?.map Line.place = lines[i]?.map Line.place := by
  cases hl : lines[i]? with
  | none =>
    rw [List.getElem?_eq_none_iff] at hl
    rw [List.getElem?_eq_none (by rw [h.length]; exact hl)]
  | some l =>
    obtain ⟨l', hl'⟩ : ∃ l', lines'[i]? = some l' := by
      have hlt := (List.getElem?_eq_some_iff.1 hl).1
      exact ⟨_, List.getElem?_eq_getElem (by rw [h.length]; exact hlt)⟩
    have hagrees := h.agrees i hi l hl l' hl'
    rw [hl', Option.map_some, Option.map_some]
    exact congrArg some (Prod.ext hagrees.level hagrees.ignore)

/-- Two passes with the same outcome wherever it is seen, but for offsets. -/
structure Pass.Agrees (seen : Nat → Prop) (p p' : Pass) : Prop where
  stack : Stack.unshifted p'.stack = Stack.unshifted p.stack
  error : p'.error?.map ScopeError.unshifted = p.error?.map ScopeError.unshifted
  places : ∀ i, seen i → p'.lines[i]?.map Line.place = p.lines[i]?.map Line.place

/-- Lines that are not seen leave no trace on those that are. -/
theorem passLines_veils {seen : Nat → Prop} {lines lines' : List Line}
    (h : Veils seen lines lines') {stack stack' : Stack}
    (hs : Stack.unshifted stack' = Stack.unshifted stack) :
    Pass.Agrees seen (passLines stack lines) (passLines stack' lines') := by
  induction lines generalizing lines' seen stack stack' with
  | nil =>
    obtain rfl : lines' = [] := List.eq_nil_of_length_eq_zero h.length
    exact ⟨hs, rfl, fun _ _ => rfl⟩
  | cons l lines ih =>
    obtain ⟨l', lines', rfl⟩ : ∃ l' rest, lines' = l' :: rest :=
      List.exists_cons_of_length_eq_add_one h.length
    -- both go on behind their first lines
    have hgo : (passLine stack l).2.2 = none → (passLine stack' l').2.2 = none →
        Stack.unshifted (passLine stack' l').1 = Stack.unshifted (passLine stack l).1 →
        (seen 0 → (passLine stack' l').2.1.place = (passLine stack l).2.1.place) →
        Pass.Agrees seen (passLines stack (l :: lines)) (passLines stack' (l' :: lines')) := by
      intro he he' hstack hplace
      have hrest := ih h.tail hstack
      rw [passLines_of_ok he, passLines_of_ok he']
      refine ⟨hrest.stack, hrest.error, fun i hi => ?_⟩
      cases i with
      | zero => exact congrArg some (hplace hi)
      | succ i => exact hrest.places i hi
    by_cases hseen : seen 0
    · obtain ⟨hstack, hplace, herror⟩ := passLine_agrees hs (h.agrees 0 hseen l rfl l' rfl)
      cases he : (passLine stack l).2.2 with
      | none =>
        rw [he, Option.map_none, Option.map_eq_none_iff] at herror
        exact hgo he herror hstack fun _ => hplace
      | some e =>
        rw [he, Option.map_some] at herror
        obtain ⟨e', he', heq⟩ := Option.map_eq_some_iff.1 herror
        rw [passLines_of_error he, passLines_of_error he']
        refine ⟨hstack, congrArg some heq, fun i hi => ?_⟩
        cases i with
        | zero => exact congrArg some hplace
        | succ i => exact h.tail.places i hi
    · obtain ⟨hstack, herror⟩ := Progress.walk_of_not_nests { stack }
        (h.mute 0 hseen l (Or.inl rfl))
      obtain ⟨hstack', herror'⟩ := Progress.walk_of_not_nests { stack := stack' }
        (h.mute 0 hseen l' (Or.inr rfl))
      refine hgo herror herror' ?_ fun hi => absurd hi hseen
      change Stack.unshifted (Progress.walk { stack := stack' } l'.tokens).1.stack =
        Stack.unshifted (Progress.walk { stack } l.tokens).1.stack
      rw [hstack, hstack']
      exact hs

/-- Of the outcome for a whole document, too, only offsets depend on what is not seen. -/
theorem pass_veils {seen : Nat → Prop} {lines lines' : List Line} (h : Veils seen lines lines') :
    (pass [] lines').error?.map ScopeError.report = (pass [] lines).error?.map ScopeError.report ∧
      ∀ i, seen i → (pass [] lines').lines[i]?.map Line.place =
        (pass [] lines).lines[i]?.map Line.place := by
  have hagrees : Pass.Agrees seen (passLines [] lines) (passLines [] lines') := passLines_veils h rfl
  have htop : ∀ stack : Stack, (stack.head?.map .neverClosed).map ScopeError.unshifted =
      (Stack.unshifted stack).head?.map .neverClosed := by
    intro stack
    cases stack with
    | nil => rfl
    | cons t stack => rfl
  have herror : (pass [] lines').error?.map ScopeError.unshifted =
      (pass [] lines).error?.map ScopeError.unshifted := by
    rw [error_pass, error_pass, Option.map_or, Option.map_or, hagrees.error, htop, htop,
      hagrees.stack]
  refine ⟨?_, fun i hi => ?_⟩
  · have hreport := congrArg (Option.map ScopeError.report) herror
    simpa only [Option.map_map, Function.comp_def, ScopeError.report_unshifted] using hreport
  · rw [lines_pass, lines_pass]
    exact hagrees.places i hi

end Scope
end Reindent
