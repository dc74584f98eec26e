import Reindent.Line

/-! Scopes: the nesting of tokens, and the levels of lines that follow from it. -/
namespace Reindent

inductive ScopeError where
  | closesNothing (closer : Token)
  | closesNoTemplate (closer : Token)
  | kindMismatch (closer opener : Token)
  | neverClosed (opener : Token)
  deriving DecidableEq, Repr

namespace Scope

/-- The tokens whose scopes are open, the innermost first. -/
abbrev Stack := List Token

/-- Takes the innermost template token off the stack and leaves the others in place. -/
def takeTemplate? : Stack → Option (Token × Stack)
  | [] => none
  | t :: rest =>
    if t.kind = .template then some (t, rest)
    else (takeTemplate? rest).map fun r => (r.1, t :: r.2)

/-- Takes the body of a switch statement off the stack, and with it the labels inside. -/
def takeSwitch? (stack : Stack) : Option (Token × Stack) :=
  match stack.dropWhile (·.kind = .case) with
  | [] => none
  | t :: rest => if t.kind = .switch then some (t, rest) else none

/-- The open token that a token closes, and the stack without it. Template tags may straddle other
grammars and reach past their tokens; all other tokens must close the innermost scope. -/
def close (stack : Stack) (t : Token) : Except ScopeError (Token × Stack) :=
  match stack with
  | [] => .error (.closesNothing t)
  | top :: rest =>
    match t.kind with
    | .template =>
      match takeTemplate? stack with
      | some r => .ok r
      | none => .error (.closesNoTemplate t)
    | .switch =>
      match takeSwitch? stack with
      | some r => .ok r
      | none => .error (.kindMismatch t top)
    | kind => if top.kind = kind then .ok (top, rest) else .error (.kindMismatch t top)

/-- The level of a line that starts inside the innermost scope. -/
def nextLevel (stack : Stack) : Int64 :=
  match stack with
  | [] => 0
  | t :: _ => t.level + 1

/-- The state in the middle of a line. Once a visible token was seen, `level` and `offset` are those
of the line. -/
structure Progress where
  stack : Stack
  started : Bool := false
  level : Int64 := 0
  offset : Int64 := 0
  deriving DecidableEq, Repr

namespace Progress

def push (p : Progress) (t : Token) (level : Int64) : Progress × Token :=
  if t.indents then
    let t := { t with level }
    ({ p with stack := t :: p.stack }, t)
  else (p, t)

/-- The first visible token of a line decides about its level and offset. -/
def start (p : Progress) (t : Token) (level : Int64) : Progress :=
  if p.started then p else { p with started := true, level, offset := t.offset }

def step (p : Progress) (t : Token) : Except ScopeError (Progress × Token) :=
  if !p.started && t.isBlank then .ok (p, t)
  else if t.dedents then do
    let (opener, stack) ← close p.stack t
    .ok (({ p with stack }.start t opener.level).push t opener.level)
  else
    let p := p.start t (nextLevel p.stack)
    .ok (p.push t p.level)

/-- Goes on until a token closes what it cannot close. That token and those after it stay as they
are. -/
def walk (p : Progress) : List Token → Progress × List Token × Option ScopeError
  | [] => (p, [], none)
  | t :: rest =>
    match p.step t with
    | .error e => (p, t :: rest, some e)
    | .ok (p, t) =>
      let (p, rest, error?) := p.walk rest
      (p, t :: rest, error?)

end Progress

/-- The outcome of a pass over some lines: the scopes still open, the lines with their levels, and
the error that ended the pass. -/
structure Pass where
  stack : Stack
  lines : List Line
  error? : Option ScopeError := none
  deriving DecidableEq, Repr

/-- Gives a line its level and offset. It is verbatim if its first token is. -/
def passLine (stack : Stack) (line : Line) : Stack × Line × Option ScopeError :=
  let (p, tokens, error?) := Progress.walk { stack } line.tokens
  let ignore := line.tokens.head?.any Token.ignore
  (p.stack, { line with tokens, level := p.level, offset := p.offset, ignore }, error?)

/-- Line after line, up to the first error. Lines after it stay as they are. -/
def passLines (stack : Stack) : List Line → Pass
  | [] => { stack, lines := [] }
  | line :: rest =>
    match passLine stack line with
    | (stack, line, some e) => { stack, lines := line :: rest, error? := some e }
    | (stack, line, none) =>
      let pass := passLines stack rest
      { pass with lines := line :: pass.lines }

def pass (stack : Stack) (lines : List Line) : Pass :=
  let p := passLines stack lines
  match p.error?, p.stack with
  | none, t :: _ => { p with error? := some (.neverClosed t) }
  | _, _ => p

/-- The lines of a document with their levels, if its tokens nest. -/
def assign (lines : List Line) : Except ScopeError (List Line) :=
  let p := pass [] lines
  match p.error? with
  | some e => .error e
  | none => .ok p.lines

end Scope
end Reindent
