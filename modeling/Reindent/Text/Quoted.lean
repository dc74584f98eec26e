import Reindent.Text.Printable

/-! Quoted texts: printable characters as they are, everything else as an escape. -/
namespace Reindent.Text

def hexDigit (n : Nat) : UInt8 := if n < 10 then (48 + n).toUInt8 else (87 + n).toUInt8

def hex : Nat → Nat → Bytes
  | 0, _ => []
  | digits + 1, n => hexDigit (n / Nat.pow 16 digits % 16) :: hex digits n

/-- Letters of the short escapes, by code. -/
def shortEscape? (n : Nat) : Option UInt8 :=
  match n with
  | 7 => some 97
  | 8 => some 98
  | 9 => some 116
  | 10 => some 110
  | 11 => some 118
  | 12 => some 102
  | 13 => some 114
  | _ => none

def quoteChar (printable : Char → Bool) (c : Char) : Bytes :=
  if c = '"' ∨ c = '\\' then 92 :: String.utf8EncodeChar c
  else if printable c then String.utf8EncodeChar c
  else match shortEscape? c.toNat with
    | some letter => [92, letter]
    | none =>
      if c.toNat < 0x20 ∨ c.toNat = 0x7F then 92 :: 120 :: hex 2 c.toNat
      else if c.toNat < 0x10000 then 92 :: 117 :: hex 4 c.toNat
      else 92 :: 85 :: hex 8 c.toNat

def quoteSymbol (printable : Char → Bool) : Symbol → Bytes
  | .char c => quoteChar printable c
  | .stray b => 92 :: 120 :: hex 2 b.toNat

/-- The text between double quotes. A quote and a backslash inside have a backslash in front. -/
def quoteWith (printable : Char → Bool) (s : Bytes) : Bytes :=
  34 :: (Utf8.decode s).flatMap (quoteSymbol printable) ++ [34]

def quote (s : Bytes) : Bytes := quoteWith isPrintable s

end Reindent.Text
