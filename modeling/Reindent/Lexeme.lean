import Reindent.Pattern

/-! The kinds of lexemes, and the patterns that several grammars share. -/
namespace Reindent

/-- What a mode recognises in a line. Text between lexemes has no name. -/
inductive Lexeme where
  | templateBlock
  | templateVariable
  | templateComment
  | templateCommentStart
  | formatOff
  | commentStart
  | endTag
  | endTagStart
  | tagStart
  | tagEnd
  | emptyTagEnd
  | string
  | closer
  | openBracket
  | closeBracket
  | semicolon
  | colon
  | lineComment
  | backtick
  | switchWord
  | caseWord
  | ellipsis
  | dot
  | escape
  | regionEnd
  deriving DecidableEq, Repr

abbrev Rules := List (Lexeme × Pattern)

namespace Rules

def template : Rules :=
  [(.templateBlock, .literal "\x7b%" ++ .upTo ++ .literal "%\x7d"),
   (.templateVariable, .literal "\x7b\x7b" ++ .upTo ++ .literal "\x7d\x7d"),
   (.templateComment, .literal "\x7b#" ++ .upTo ++ .literal "#\x7d"),
   (.templateCommentStart, .literal "\x7b#")]

/-- A quoted string in which a backslash keeps the next byte from ending it. -/
def escapedString (quote : UInt8) : Pattern :=
  let plain : Pattern := .run true (Pattern.except [quote, 92, Bytes.newline])
  .byte quote ++ plain ++ .many (.byte 92 ++ .any ++ plain) ++ .byte quote

def strings : Rules := [(.string, escapedString 34), (.string, escapedString 39)]

def brackets : Rules :=
  [(.openBracket, .oneOf "\x7b(["), (.closeBracket, .oneOf "\x7d)]")]

def closing (element : Bytes) : Pattern :=
  .literal "</" ++ .caseless element ++ .gap ++ .literal ">"

end Rules

namespace Lexeme

/-- Template syntax means the same in every grammar. -/
def isTemplate : Lexeme → Bool
  | .templateBlock | .templateVariable | .templateComment | .templateCommentStart => true
  | _ => false

end Lexeme
end Reindent
