import Reindent.Mode

/-! The active mode and the modes it returns to. -/
namespace Reindent

/-- `returns` are the modes behind the active one, the innermost first. A run starts with some modes
on the stack; the last `start` entries are those of them that were not left yet, and `left` are the
others as they were when they were left, the latest first. -/
structure ModeStack where
  active : Mode
  returns : List Mode := []
  start : Nat := returns.length + 1
  left : List Mode := []
  deriving DecidableEq, Repr

namespace ModeStack

def embedded (stack : ModeStack) : Bool := !stack.returns.isEmpty

def setActive (stack : ModeStack) (mode : Mode) : ModeStack := { stack with active := mode }

/-- Leaves the active mode. The outermost mode is never left. -/
def leave (stack : ModeStack) : ModeStack :=
  match stack.returns with
  | [] => stack
  | mode :: returns =>
    if returns.length + 1 < stack.start then
      { active := mode, returns, start := stack.start - 1, left := stack.active :: stack.left }
    else { stack with active := mode, returns }

def apply (stack : ModeStack) : Move → ModeStack
  | .keep self => stack.setActive self
  | .enter self inner => { stack with active := inner, returns := self :: stack.returns }
  | .leave => stack.leave

/-- The start modes in their present state, as a stack for another run. -/
def rewind (stack : ModeStack) : ModeStack :=
  let kept := (stack.active :: stack.returns).drop (stack.returns.length + 1 - stack.start)
  match stack.left.reverse ++ kept with
  | [] => stack
  | mode :: returns => { active := mode, returns }

end ModeStack
end Reindent
