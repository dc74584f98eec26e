import Reindent.Text.Bytes

/-! Characters of a byte string. Bytes that are not part of a well-formed character stand alone. -/
namespace Reindent

/-- A character of a text, or a byte that belongs to none. -/
inductive Symbol where
  | char (c : Char)
  | stray (b : UInt8)
  deriving DecidableEq, Repr

namespace Symbol

def bytes : Symbol → Bytes
  | .char c => String.utf8EncodeChar c
  | .stray b => [b]

def satisfies (p : Char → Bool) : Symbol → Bool
  | .char c => p c
  | .stray _ => false

end Symbol

namespace Utf8

/-- How many bytes follow a first byte, by its high bits. -/
def trailing (b : UInt8) : Nat :=
  if b < 0xC0 then 0 else if b < 0xE0 then 1 else if b < 0xF0 then 2 else 3

/-- The number spelled by the low bits of a first byte and of those that follow it. -/
def value (b : UInt8) (more : Bytes) : Nat :=
  more.foldl (fun n x => n * 64 + x.toNat % 64)
    (if b < 0xC0 then b.toNat else if b < 0xE0 then b.toNat % 32
     else if b < 0xF0 then b.toNat % 16 else b.toNat % 8)

/-- The first character and the number of bytes after its first one. The bytes form a character
exactly if they are the way that character is written; no other spelling of it counts. -/
def first (b : UInt8) (rest : Bytes) : Symbol × Nat :=
  let more := rest.take (trailing b)
  let c := Char.ofNat (value b more)
  if String.utf8EncodeChar c = b :: more then (.char c, more.length) else (.stray b, 0)

/-- The characters after the next `skip` bytes. -/
def decodeFrom : Nat → Bytes → List Symbol
  | _, [] => []
  | skip + 1, _ :: rest => decodeFrom skip rest
  | 0, b :: rest => (first b rest).1 :: decodeFrom (first b rest).2 rest

def decode (s : Bytes) : List Symbol := decodeFrom 0 s

def encode (s : List Symbol) : Bytes := s.flatMap Symbol.bytes

theorem bytes_first (b : UInt8) (rest : Bytes) :
    (first b rest).1.bytes ++ rest.drop (first b rest).2 = b :: rest := by
  simp only [first]
  split
  · next h =>
    simp only [Symbol.bytes, h, List.cons_append, List.cons.injEq, true_and, List.length_take]
    by_cases hl : trailing b ≤ rest.length
    · rw [Nat.min_eq_left hl]; exact List.take_append_drop _ _
    · rw [Nat.min_eq_right (by omega), List.take_of_length_le (by omega), List.drop_length,
        List.append_nil]
  · simp [Symbol.bytes]

theorem encode_decodeFrom (s : Bytes) (skip : Nat) : encode (decodeFrom skip s) = s.drop skip := by
  induction s generalizing skip with
  | nil => simp [decodeFrom, encode]
  | cons b rest ih =>
    cases skip with
    | succ skip => simpa [decodeFrom] using ih skip
    | zero =>
      have h := ih (first b rest).2
      simp only [encode] at h
      simp only [decodeFrom, encode, List.flatMap_cons, h, bytes_first, List.drop_zero]

/-- Decoding loses nothing. -/
theorem encode_decode (s : Bytes) : encode (decode s) = s := by
  simpa [decode] using encode_decodeFrom s 0

/-- Whether every byte belongs to a character. -/
def isWellFormed (s : Bytes) : Bool :=
  (decode s).all fun
    | .char _ => true
    | .stray _ => false

/-- The number of characters, a stray byte counting as one. -/
def count (s : Bytes) : Nat := (decode s).length

end Utf8
end Reindent
