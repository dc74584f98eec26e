import Reindent.Language
import Reindent.Scan
import Reindent.Verify

/-! Reindentation of documents. -/
namespace Reindent

/-- Why a document has no result: it has an error, or reading it went out of range. -/
inductive Failure where
  | error (cause : Error)
  | overrun
  deriving DecidableEq, Repr

/-- Tests on the text of a tag are given up when they take too long. Whether one is, and the reason
that is given, may depend on the line and the column of the tag. -/
structure Limits where
  reason? : Int64 → Int64 → Bytes → Option Bytes

namespace Scan

/-- The error at a tag whose test is given up. -/
def refusal? (limits : Limits) (settings : Settings) (state : State) (line : Line)
    (rest : Bytes) : Option Error := do
  let (line, tag) ← tested? settings state line rest
  let reason ← limits.reason? line.number line.column tag
  some (.lexical (Bytes.ascii "classifying " ++ Text.quote tag ++ Bytes.ascii ": " ++ reason)
    line.number (line.column + 1))

/-- Runs that end early at a tag whose test is given up as well. -/
def Guard.within (settings : Settings) (limits? : Option Limits) : Guard Failure where
  overrun _ := .overrun
  refuse? state line rest :=
    match limits? with
    | none => none
    | some limits => (refusal? limits settings state line rest).map .error

end Scan

/-- The lines of a document, read within limits if there are any. -/
def tokenizeWithin (limits? : Option Limits) (settings : Scan.Settings) (modes : ModeStack)
    (source : Bytes) : Except Failure (List Line) :=
  (Scan.readLinesWith (.within settings limits?) settings { modes } 1 (Scan.linesBelow source)).2

/-- Lines with their levels, from a stack of modes. -/
def parse (settings : Scan.Settings) (modes : ModeStack) (source : Bytes)
    (limits? : Option Limits := none) : Except Failure (List Line) := do
  let lines ← tokenizeWithin limits? settings modes source
  (Scope.assign lines).mapError fun e => .error (.structural e.report)

structure Formatter where
  tabWidth : Int64 := 4
  blocks : Blocks := []
  language : Language := .html
  deriving DecidableEq, Repr

structure Formatted where
  content : Bytes
  changed : Bool
  deriving DecidableEq, Repr

namespace Formatter

def lines (f : Formatter) (source : Bytes) (limits? : Option Limits := none) :
    Except Failure (List Line) :=
  if f.tabWidth < 0 then .error (.error .tabWidth)
  else parse { tabWidth := f.tabWidth, blocks := f.blocks } f.language.start source limits?

/-- The document with every line at its level. -/
def indent (f : Formatter) (source : Bytes) (limits? : Option Limits := none) :
    Except Failure Bytes := do
  let lines ← f.lines source limits?
  .ok (Bytes.joinLines (lines.map (·.indent f.tabWidth)))

/-- The tokens of the document, with the levels and offsets of its lines. In their texts the
characters that are printable stand for themselves. -/
def debugWith (printable : Char → Bool) (f : Formatter) (source : Bytes)
    (limits? : Option Limits := none) : Except Failure Bytes := do
  let lines ← f.lines source limits?
  .ok (Bytes.joinLines (lines.map (Line.describeWith printable)))

def debug (f : Formatter) (source : Bytes) (limits? : Option Limits := none) :
    Except Failure Bytes :=
  f.debugWith Text.isPrintable source limits?

/-- The reindented document, verified against its source. -/
def format (f : Formatter) (source : Bytes) (limits? : Option Limits := none) :
    Except Failure Formatted := do
  let content ← f.indent source limits?
  let changed ← (verify source content).mapError .error
  .ok { content, changed }

end Formatter
end Reindent
