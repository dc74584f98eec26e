import Reindent.Lookahead
import Reindent.Region
import Reindent.Text.Word
import Reindent.Token

/-! Template syntax: tags, variables and comments, and which tags open and close blocks. -/
namespace Reindent.Template

/-- A tag may have a plus or a minus behind its first and in front of its last delimiter. -/
def dropSign : Bytes → Bytes
  | 43 :: rest => rest
  | 45 :: rest => rest
  | s => s

/-- The name of a tag: the word at its start. -/
def tagName? (tag : Bytes) : Option Bytes := do
  let inner ← Bytes.after? (Bytes.ascii "\x7b%") tag
  let name := ((dropSign inner).dropWhile Bytes.isSpace).takeWhile Bytes.isWord
  if name.isEmpty then none else some name

/-- Tags between the branches of a block. -/
def branches : List Bytes :=
  ["else", "elif", "elseif", "empty", "plural"].map Bytes.ascii

/-- The characters of a tag after its name. -/
def afterName (tag : Bytes) : List Symbol :=
  Utf8.decode
    (((dropSign (tag.drop 2)).dropWhile Bytes.isSpace).dropWhile Bytes.isWord)

/-- The characters of a tag in front of its last delimiter, the last one first, without the white
space there. -/
def beforeEnd (tag : Bytes) : List Symbol :=
  (Utf8.decode (dropSign (tag.reverse.drop 2)).reverse).reverse.dropWhile Text.blank

def endsWord (rest : List Symbol) : Bool := !rest.head?.any (·.satisfies Text.isWordChar)

/-- A tag with an equals sign assigns a variable; without one it captures a block. -/
def capturesBlock (tag : Bytes) : Bool :=
  let rest := afterName tag
  endsWord rest && !(rest.takeWhile (· != .char '%')).contains (.char '=')

/-- The last word of the tag is `or`. -/
def endsWithOr (tag : Bytes) : Bool :=
  match beforeEnd tag with
  | .char 'r' :: .char 'o' :: front => endsWord front
  | _ => false

/-- The last words of the tag are `as` and a name. -/
def endsWithAs (tag : Bytes) : Bool :=
  let word (s : Symbol) : Bool := s.satisfies Text.isWordChar
  let inner := beforeEnd tag
  let front := inner.dropWhile word
  !(inner.takeWhile word).isEmpty && !(front.takeWhile Text.blank).isEmpty &&
  match front.dropWhile Text.blank with
  | .char 's' :: .char 'a' :: front => endsWord front
  | _ => false

/-- Some tags open a block only if their own text says so. -/
def ambiguous : List Bytes := ["set", "placeholder", "video"].map Bytes.ascii

def mayOpen (name tag : Bytes) : Bool :=
  if name == Bytes.ascii "set" then capturesBlock tag
  else if name == Bytes.ascii "placeholder" then endsWithOr tag
  else if name == Bytes.ascii "video" then endsWithAs tag
  else true

/-- Tags that end a block: by their name, or because a block was configured to end with them. -/
def isEndTag (blocks : Blocks) (name : Bytes) : Bool :=
  (Bytes.ascii "end").isPrefixOf name || blocks.isEnd name

/-- Whether reading a tag comes to the test of its text. -/
def isTested (blocks : Blocks) (tag : Bytes) : Bool :=
  (tagName? tag).any fun name =>
    (RawBlock.ofName? name).isNone && !branches.contains name && !isEndTag blocks name &&
      ambiguous.contains name

/-- The token of a tag and the verbatim region it starts. A tag opens a block if an end tag of its
name is ahead. -/
def readBlock (blocks : Blocks) (memory : Lookahead) (tag ahead : Bytes) :
    Token × Option Region × Lookahead :=
  match tagName? tag with
  | none => (.plain tag .template, none, memory)
  | some name =>
    match RawBlock.ofName? name with
    | some block => (.plain tag .template, some (.block block), memory)
    | none =>
      if branches.contains name then (.reopening tag .template, none, memory)
      else if isEndTag blocks name then (.closing tag .template, none, memory)
      else if mayOpen name tag then
        let (found, memory) := memory.hasEnd blocks name ahead
        (if found then .opening tag .template else .plain tag .template, none, memory)
      else (.plain tag .template, none, memory)

/-- A comment that turns formatting off. -/
def formatOff : Pattern :=
  .literal "\x7b#" ++ .space ++ .literal "fmt:off" ++ .space ++ .literal "#\x7d"

/-- Reads a lexeme of template syntax; `ahead` is the rest of the document after it. -/
def read (blocks : Blocks) (memory : Lookahead) (lexeme : Lexeme) (text ahead : Bytes) :
    Token × Option Region × Lookahead :=
  match lexeme with
  | .templateBlock => readBlock blocks memory text ahead
  | .templateCommentStart => (.plain text .template, some .templateComment, memory)
  | .templateComment =>
    (.plain text .template, if formatOff.isWhole text then some .templateOff else none, memory)
  | _ => (.plain text .template, none, memory)

end Reindent.Template
