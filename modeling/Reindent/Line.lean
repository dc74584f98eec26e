import Reindent.Token

/-! Lines of tokens and their rendering. -/
namespace Reindent

/-- One line of a document. The scope pass sets `level`, `offset` and `ignore`. -/
structure Line where
  number : Int64
  tokens : List Token := []
  level : Int64 := 0
  offset : Int64 := 0
  ignore : Bool := false
  deriving DecidableEq, Repr

namespace Line

def append (l : Line) (t : Token) : Line :=
  { l with tokens := l.tokens ++ [{ t with line := l.number }] }

def next (l : Line) : Line := { number := l.number + 1 }

/-- The text of all tokens, with the white space around it. -/
def raw (l : Line) : Bytes := l.tokens.flatMap Token.text

def text (l : Line) : Bytes := Text.trim l.raw

def first? (l : Line) : Option Token := l.tokens.find? (!·.isBlank)

def isBlank (l : Line) : Bool := l.tokens.all Token.isBlank

/-- The number of characters after the white space in front. -/
def column (l : Line) : Int64 := Int64.ofNat (Utf8.count (Text.trimLeft l.raw))

/-- Spaces in front of a line with visible text; never fewer than none. -/
def margin (tabWidth : Int64) (l : Line) : Nat := (tabWidth * l.level + l.offset).toInt.toNat

/-- The line at its level. A verbatim line stays as it is and a blank line comes out empty. -/
def indent (tabWidth : Int64) (l : Line) : Bytes :=
  if l.ignore then l.raw
  else if l.text.isEmpty ∨ tabWidth ≤ 0 then l.text
  else List.replicate (l.margin tabWidth) 32 ++ l.text

/-- Number, level and offset, a mark for verbatim lines, and the tokens. -/
def describeWith (printable : Char → Bool) (l : Line) : Bytes :=
  Decimal.padded 3 l.number ++ Bytes.ascii " " ++ Decimal.padded 2 l.level ++
  Decimal.signed l.offset ++ (if l.ignore then Bytes.ascii "!" else Bytes.ascii " ") ++
  Bytes.ascii " [" ++ Bytes.join (Bytes.ascii ", ") (l.tokens.map (Token.describeWith printable)) ++
  Bytes.ascii "]"

def describe (l : Line) : Bytes := l.describeWith Text.isPrintable

end Line
end Reindent
