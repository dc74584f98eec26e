import Reindent.Text.Utf8

/-! Comparison of a text with an ASCII word, whatever the case of its letters. -/
namespace Reindent.Text

/-- The ASCII letter that a character is a case variant of. Besides the ASCII capitals these are the
long s and the Kelvin sign; every other character stands for itself. -/
def foldChar (c : Char) : Char :=
  if 'A' ≤ c ∧ c ≤ 'Z' then Char.ofNat (c.toNat + 32)
  else if c = '\u017F' then 's'
  else if c = '\u212A' then 'k'
  else c

/-- Whether a text spells the lower-case ASCII `word`, ignoring case. -/
def spells (word : Bytes) (s : Bytes) : Bool :=
  (Utf8.decode s).map (fun | .char c => Symbol.char (foldChar c) | x => x)
    == (Utf8.decode word)

end Reindent.Text
