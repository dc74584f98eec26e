import Reindent.Scope

/-! Failures and their messages. -/
namespace Reindent

/-- A structural error as it is reported: its type, a message and the place. -/
structure Report where
  type : Bytes
  message : Bytes
  line : Int64
  text : Bytes
  deriving DecidableEq, Repr

/-- The line is named only if there is one. -/
def Report.describe (r : Report) : Bytes :=
  if 0 < r.line then
    r.type ++ Bytes.ascii " at line " ++ Decimal.integer r.line ++ Bytes.ascii ": " ++ r.message
  else r.type ++ Bytes.ascii ": " ++ r.message

namespace ScopeError

def token : ScopeError → Token
  | .closesNothing t => t
  | .closesNoTemplate t => t
  | .kindMismatch t _ => t
  | .neverClosed t => t

def type : ScopeError → Bytes
  | .closesNothing _ => Bytes.ascii "unmatched_closing"
  | .closesNoTemplate _ => Bytes.ascii "unmatched_closing"
  | .kindMismatch _ _ => Bytes.ascii "kind_mismatch"
  | .neverClosed _ => Bytes.ascii "unmatched_opening"

def message : ScopeError → Bytes
  | .closesNothing t => Text.quote t.text ++ Bytes.ascii " does not close anything"
  | .closesNoTemplate t => Text.quote t.text ++ Bytes.ascii " does not close any template tag"
  | .kindMismatch t opener =>
    Text.quote t.text ++ Bytes.ascii " cannot close " ++ Text.quote opener.text ++
      Bytes.ascii " from line " ++ Decimal.integer opener.line
  | .neverClosed t => Text.quote t.text ++ Bytes.ascii " is never closed"

def report (e : ScopeError) : Report :=
  { type := e.type, message := e.message, line := e.token.line, text := e.token.text }

end ScopeError

/-- How a result differs from its source in more than white space. -/
inductive Corruption where
  | somewhere
  | lineCount (source result : Nat)
  | atLine (number : Nat)
  deriving DecidableEq, Repr

def Corruption.describe : Corruption → Bytes
  | .somewhere => Bytes.ascii "non-whitespace changes detected"
  | .lineCount source result =>
    Bytes.ascii "non-whitespace changes detected: " ++ Decimal.natural source ++
      Bytes.ascii " lines became " ++ Decimal.natural result
  | .atLine number =>
    Bytes.ascii "non-whitespace changes detected at line " ++ Decimal.natural number

inductive Error where
  | structural (report : Report)
  | lexical (message : Bytes) (line column : Int64)
  | tabWidth
  | corrupted (how : Corruption)
  | unknownLanguage (name : Bytes)
  | emptyBlockName (value : Bytes)
  | other (message : Bytes)
  | within (place : Bytes) (cause : Error)
  deriving DecidableEq, Repr

namespace Error

def message : Error → Bytes
  | .structural report => report.describe
  | .lexical message line column =>
    message ++ Bytes.ascii " at line " ++ Decimal.integer line ++ Bytes.ascii ", column " ++
      Decimal.integer column
  | .tabWidth => Bytes.ascii "tab width must not be negative"
  | .corrupted how => how.describe
  | .unknownLanguage name => Bytes.ascii "unknown language " ++ Text.quote name
  | .emptyBlockName value => Bytes.ascii "empty block name in " ++ Text.quote value
  | .other message => message
  | .within place cause => place ++ Bytes.ascii ": " ++ cause.message

/-- Whether the document is at fault. -/
def isSyntax : Error → Bool
  | .structural _ => true
  | .lexical _ _ _ => true
  | .within _ cause => cause.isSyntax
  | _ => false

end Error
end Reindent
