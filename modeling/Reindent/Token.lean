import Reindent.Text.Blank
import Reindent.Text.Decimal
import Reindent.Text.Quoted

/-! Tokens: pieces of a document with their effect on nesting. -/
namespace Reindent

/-- The grammar a token belongs to. Tokens close only what their own kind opened. -/
inductive Kind where
  | text
  | template
  | markup
  | style
  | script
  | switch
  | case
  | other (code : Int64) (unnamed : code < 0 ∨ 6 < code)
  deriving DecidableEq, Repr

namespace Kind

/-- Kinds are numbered from zero; a number beyond the named ones is a kind of its own. -/
def ofCode (code : Int64) : Kind :=
  if h : code < 0 ∨ 6 < code then .other code h
  else if code = 0 then .text
  else if code = 1 then .template
  else if code = 2 then .markup
  else if code = 3 then .style
  else if code = 4 then .script
  else if code = 5 then .switch
  else .case

def name : Kind → Bytes
  | .text => Bytes.ascii "TEXT"
  | .template => Bytes.ascii "TEMPLATE"
  | .markup => Bytes.ascii "MARKUP"
  | .style => Bytes.ascii "STYLE"
  | .script => Bytes.ascii "SCRIPT"
  | .switch => Bytes.ascii "SWITCH"
  | .case => Bytes.ascii "CASE"
  | .other code _ => Bytes.ascii "Kind(" ++ Decimal.integer code ++ Bytes.ascii ")"

end Kind

/-- A piece of one line. `indents` opens a scope and `dedents` closes one; `ignore` marks verbatim
text. `offset` shifts a line that starts with the token, `level` is the depth of the scope that the
token opens, and `line` is the number of the line that holds it. -/
structure Token where
  text : Bytes
  kind : Kind
  indents : Bool := false
  dedents : Bool := false
  ignore : Bool := false
  offset : Int64 := 0
  level : Int64 := 0
  line : Int64 := 0
  deriving DecidableEq, Repr

namespace Token

def plain (text : Bytes) (kind : Kind) : Token := { text, kind }

def opening (text : Bytes) (kind : Kind) : Token := { text, kind, indents := true }

def closing (text : Bytes) (kind : Kind) : Token := { text, kind, dedents := true }

/-- A token that closes a scope and opens one at the same level. -/
def reopening (text : Bytes) (kind : Kind) : Token :=
  { text, kind, indents := true, dedents := true }

def verbatim (text : Bytes) : Token := { text, kind := .text, ignore := true }

def isBlank (t : Token) : Bool := Text.allBlank t.text

def variant (t : Token) : Bytes :=
  match t.indents, t.dedents with
  | true, true => Bytes.ascii "OpenAndClose"
  | true, false => Bytes.ascii "Open"
  | false, true => Bytes.ascii "Close"
  | false, false => Bytes.ascii "Text"

/-- Variant, kind and quoted text; a mark for verbatim text and the offset unless it is zero. -/
def describeWith (printable : Char → Bool) (t : Token) : Bytes :=
  t.variant ++ Bytes.ascii "(" ++ t.kind.name ++ Bytes.ascii ":" ++
  Text.quoteWith printable t.text ++ Bytes.ascii ")" ++
  (if t.ignore then Bytes.ascii "!" else []) ++
  (if t.offset = 0 then [] else Decimal.signed t.offset)

def describe (t : Token) : Bytes := t.describeWith Text.isPrintable

end Token
end Reindent
