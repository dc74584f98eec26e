import Reindent.Text.Bytes

/-! Reading of integers: an optional sign, an optional base, and digits with underscores. -/
namespace Reindent.Numeral

inductive Fault where
  | malformed
  | outOfRange
  deriving DecidableEq, Repr

def digit? (b : UInt8) : Option Nat :=
  if Bytes.isDigit b then some (b.toNat - 48)
  else if Bytes.isLetter b then some ((Bytes.toLower b).toNat - 87)
  else none

/-- The value of digits in a base. Underscores count for nothing here. A value that needs more than
64 bits is out of range, whatever follows. -/
def value (base : Nat) : Nat → Bytes → Except Fault Nat
  | n, [] => .ok n
  | n, b :: rest =>
    if b = 95 then value base n rest
    else match digit? b with
      | none => .error .malformed
      | some d =>
        if base ≤ d then .error .malformed
        else if Nat.pow 2 64 ≤ n * base + d then .error .outOfRange
        else value base (n * base + d) rest

/-- The base of a numeral and its digits. A leading zero alone stands for base eight. -/
def base (s : Bytes) : Nat × Bytes :=
  match s with
  | 48 :: b :: c :: rest =>
    match Bytes.toLower b with
    | 98 => (2, c :: rest)
    | 111 => (8, c :: rest)
    | 120 => (16, c :: rest)
    | _ => (8, b :: c :: rest)
  | 48 :: rest => (8, rest)
  | _ => (10, s)

/-- Every underscore stands between digits; `digit` tells whether one comes just before. -/
def underscoresSeparate (hex : Bool) : Bool → Bytes → Bool
  | _, [] => true
  | digit, 95 :: rest =>
    digit && match rest with
      | [] => false
      | b :: _ => isDigit hex b && underscoresSeparate hex false rest
  | _, b :: rest => underscoresSeparate hex (isDigit hex b) rest
where
  isDigit (hex : Bool) (b : UInt8) : Bool :=
    Bytes.isDigit b || (hex && 97 ≤ Bytes.toLower b && Bytes.toLower b ≤ 102)

/-- The mark of a base counts as a digit in front of an underscore. -/
def underscoresOk (s : Bytes) : Bool :=
  match s with
  | 48 :: b :: rest =>
    let mark := Bytes.toLower b
    if mark = 98 ∨ mark = 111 ∨ mark = 120 then underscoresSeparate (mark == 120) true rest
    else underscoresSeparate false false s
  | _ => underscoresSeparate false false s

def natural (s : Bytes) : Except Fault Nat :=
  if s.isEmpty then .error .malformed
  else do
    let (b, digits) := base s
    let n ← value b 0 digits
    if s.contains 95 && !underscoresOk s then .error .malformed else .ok n

/-- An integer of 64 bits. -/
def integer (s : Bytes) : Except Fault Int64 :=
  match s with
  | 45 :: rest => do
    let n ← natural rest
    if Nat.pow 2 63 < n then .error .outOfRange else .ok (-(Int64.ofNat n))
  | 43 :: rest => positive rest
  | _ => positive s
where
  positive (s : Bytes) : Except Fault Int64 := do
    let n ← natural s
    if Nat.pow 2 63 ≤ n then .error .outOfRange else .ok (Int64.ofNat n)

end Reindent.Numeral
