import Reindent.Lexeme

/-! Verbatim regions: parts of a document that are kept as they are. -/
namespace Reindent

inductive RawBlock where
  | comment
  | verbatim
  | raw
  deriving DecidableEq, Repr

inductive Preformatted where
  | pre
  | textarea
  deriving DecidableEq, Repr

namespace RawBlock

def name : RawBlock → Bytes
  | .comment => Bytes.ascii "comment"
  | .verbatim => Bytes.ascii "verbatim"
  | .raw => Bytes.ascii "raw"

def ofName? (name : Bytes) : Option RawBlock :=
  [comment, verbatim, raw].find? (·.name == name)

end RawBlock

namespace Preformatted

def name : Preformatted → Bytes
  | .pre => Bytes.ascii "pre"
  | .textarea => Bytes.ascii "textarea"

def ofName? (name : Bytes) : Option Preformatted := [pre, textarea].find? (·.name == name)

end Preformatted

/-- A region by what it is; the kinds of region differ in how they end. -/
inductive Region where
  | templateComment
  | templateOff
  | block (tag : RawBlock)
  | markupComment
  | markupOff
  | element (name : Preformatted)
  | codeComment
  | styleOff
  | scriptOff
  | templateLiteral
  deriving DecidableEq, Repr

namespace Region

def finish : Region → Pattern
  | .templateComment => .literal "#\x7d"
  | .templateOff => .literal "\x7b#" ++ .gap ++ .literal "fmt:on" ++ .gap ++ .literal "#\x7d"
  | .block tag =>
    .literal "\x7b%" ++ .optional (.oneOf "-+") ++ .gap ++ .literal "end" ++ .word tag.name ++
      .wordEdge ++ .upTo ++ .literal "%\x7d"
  | .markupComment => .literal "-->"
  | .markupOff => .literal "<!--" ++ .gap ++ .literal "fmt:on" ++ .gap ++ .literal "-->"
  | .element name => Rules.closing name.name
  | .codeComment => .literal "*/"
  | .styleOff => .literal "/*" ++ .gap ++ .literal "fmt:on" ++ .gap ++ .literal "*/"
  | .scriptOff => .literal "//" ++ .gap ++ .literal "fmt:on" ++ .wordEdge
  | .templateLiteral => .byte 96

/-- In a template literal a backslash keeps the next character from ending it. -/
def rules (r : Region) : Rules :=
  match r with
  | .templateLiteral => [(.escape, .byte 92 ++ .anyChar), (.regionEnd, r.finish)]
  | _ => [(.regionEnd, r.finish)]

/-- The end of the region as a regular expression. -/
def delimiter : Region → Bytes
  | .templateComment => Bytes.ascii "#\\\x7d"
  | .templateOff => Bytes.ascii "\\\x7b#[ \\t]*fmt:on[ \\t]*#\\\x7d"
  | .block tag =>
    Bytes.ascii "\\\x7b%[-+]?[ \\t]*end" ++ tag.name ++ Bytes.ascii "\\b.*?%\\\x7d"
  | .markupComment => Bytes.ascii "-->"
  | .markupOff => Bytes.ascii "<!--[ \\t]*fmt:on[ \\t]*-->"
  | .element name => Bytes.ascii "(?i)</" ++ name.name ++ Bytes.ascii "[ \\t]*>"
  | .codeComment => Bytes.ascii "\\*/"
  | .styleOff => Bytes.ascii "/\\*[ \\t]*fmt:on[ \\t]*\\*/"
  | .scriptOff => Bytes.ascii "//[ \\t]*fmt:on\\b"
  | .templateLiteral => [96]

end Region
end Reindent
