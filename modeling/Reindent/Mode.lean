import Reindent.Line
import Reindent.Region

/-! Modes: the grammar in force at a place in the document, with the state it keeps. -/
namespace Reindent

/-- An opening tag between its name and its closing bracket. -/
structure OpenTag where
  name : Bytes
  /-- Shift of the tag's further lines, so that they line up with the first attribute. -/
  offset : Int64 := 0
  /-- The text of the tag so far, without newlines. -/
  source : Bytes := []
  deriving DecidableEq, Repr

structure StyleState where
  /-- The brackets that are open, the innermost first. -/
  brackets : List UInt8 := []
  /-- Between the colon and the end of a declaration. -/
  inDeclaration : Bool := false
  deriving DecidableEq, Repr

structure Frame where
  /-- The offset of the line that holds the bracket. -/
  offset : Int64
  /-- Whether it is the body of a switch statement. -/
  hard : Bool := false
  /-- Whether a label of that body was seen. -/
  caseOpen : Bool := false
  deriving DecidableEq, Repr

structure ScriptState where
  /-- The brackets that are open, the innermost first. -/
  frames : List Frame := []
  /-- After the word `switch`, before the brace of its body. -/
  switching : Bool := false
  /-- The offset of the current line. -/
  lineOffset : Int64 := 0
  deriving DecidableEq, Repr

inductive Mode where
  | text
  | markup
  | tag (t : OpenTag)
  | endTag
  | style (s : StyleState)
  | script (s : ScriptState)
  | verbatim (r : Region)
  deriving DecidableEq, Repr

/-- How the active mode goes on after a lexeme: as it is now, with an inner mode to return from, or
not at all. -/
inductive Move where
  | keep (self : Mode)
  | enter (self inner : Mode)
  | leave
  deriving DecidableEq, Repr

/-- What a mode sees around a token: the tokens in front of it and the bytes behind it on its
line. -/
structure Sight where
  tabWidth : Int64
  line : Line
  rest : Bytes

def Sight.atStart (sight : Sight) : Bool := sight.line.isBlank

/-- Whether the token is the one that decides about the indentation of its line. -/
def Sight.leads (sight : Sight) (t : Token) : Bool := sight.atStart && !t.isBlank

inductive ModeName where
  | text
  | markup
  | tag (element : Bytes)
  | endTag
  | style
  | script
  | comment (delimiter : Bytes)
  deriving DecidableEq, Repr

def ModeName.describe : ModeName → Bytes
  | .text => Bytes.ascii "text"
  | .markup => Bytes.ascii "markup"
  | .tag element => Bytes.ascii "tag(" ++ element ++ Bytes.ascii ")"
  | .endTag => Bytes.ascii "endtag"
  | .style => Bytes.ascii "style"
  | .script => Bytes.ascii "script"
  | .comment delimiter => Bytes.ascii "comment(" ++ delimiter ++ Bytes.ascii ")"

def Mode.name : Mode → ModeName
  | .text => .text
  | .markup => .markup
  | .tag t => .tag t.name
  | .endTag => .endTag
  | .style _ => .style
  | .script _ => .script
  | .verbatim r => .comment r.delimiter

end Reindent
