import Reindent.Text.Utf8

/-! White space, and texts without the white space at their ends. -/
namespace Reindent.Text

/-- White space of every script: the ASCII blanks, next line, no-break space and the spaces and
separators of Unicode. -/
def isBlank (c : Char) : Bool :=
  let n := c.toNat
  (9 ≤ n && n ≤ 13) || n == 0x20 || n == 0x85 || n == 0xA0 || n == 0x1680 ||
  (0x2000 ≤ n && n ≤ 0x200A) || n == 0x2028 || n == 0x2029 || n == 0x202F || n == 0x205F ||
  n == 0x3000

def blank (s : Symbol) : Bool := s.satisfies isBlank

/-- A list without the members in front that satisfy `p`, and without those at the end. -/
def strip {α : Type} (p : α → Bool) (s : List α) : List α :=
  ((s.dropWhile p).reverse.dropWhile p).reverse

def trimLeft (s : Bytes) : Bytes := Utf8.encode ((Utf8.decode s).dropWhile blank)

def trim (s : Bytes) : Bytes := Utf8.encode (strip blank (Utf8.decode s))

/-- A text of white space only, the empty one included. -/
def allBlank (s : Bytes) : Bool := (Utf8.decode s).all blank

end Reindent.Text
