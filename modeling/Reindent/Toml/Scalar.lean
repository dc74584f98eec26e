import Reindent.Text.Numeral
import Reindent.Text.Quoted

/-! Numbers, dates and strings of TOML documents. -/
namespace Reindent.Toml

/-- Digits in which every underscore stands between two of them. -/
def isDigits (accepts : UInt8 → Bool) (s : Bytes) : Bool :=
  (Bytes.splitOn 95 s).all fun part => !part.isEmpty && part.all accepts

def isOctalDigit (b : UInt8) : Bool := 48 ≤ b && b ≤ 55
def isBinaryDigit (b : UInt8) : Bool := b == 48 || b == 49
def isHexDigit (b : UInt8) : Bool := (Numeral.digit? b).any (· < 16)

def dropSign : Bytes → Bytes
  | 43 :: rest => rest
  | 45 :: rest => rest
  | s => s

/-- Decimal digits without a needless zero in front. -/
def isDecimal (s : Bytes) : Bool :=
  isDigits Bytes.isDigit s && (s.length ≤ 1 || s.head? != some 48)

/-- The form of an integer. Only decimal ones may have a sign. -/
def isInteger (s : Bytes) : Bool :=
  match s with
  | 48 :: 120 :: digits => isDigits isHexDigit digits
  | 48 :: 111 :: digits => isDigits isOctalDigit digits
  | 48 :: 98 :: digits => isDigits isBinaryDigit digits
  | _ => isDecimal (dropSign s)

def integer? (s : Bytes) : Option Int64 :=
  if isInteger s then (Numeral.integer s).toOption else none

/-- A decimal number: its digits without a point, and the power of ten they are multiplied by. -/
structure Decimal where
  digits : Bytes
  exponent : Int

/-- Splits a float into its digits and its exponent. -/
def decimal? (s : Bytes) : Option Decimal :=
  let body := dropSign s
  let (mantissa, exponent?) := match Bytes.cut? 101 (body.map Bytes.toLower) with
    | some (mantissa, exponent) => (mantissa, some exponent)
    | none => (body, none)
  let (whole, fraction?) := match Bytes.cut? 46 mantissa with
    | some (whole, fraction) => (whole, some fraction)
    | none => (mantissa, none)
  if !isDecimal whole || !fraction?.all (isDigits Bytes.isDigit) ||
      !exponent?.all (fun e => isDigits Bytes.isDigit (dropSign e)) ||
      (fraction?.isNone && exponent?.isNone) then none
  else
    let plain (s : Bytes) : Bytes := s.filter (· != 95)
    let fraction := plain (fraction?.getD [])
    let exponent := exponent?.getD []
    let size : Int := (plain (dropSign exponent)).foldl (fun n b => n * 10 + (b.toNat - 48)) 0
    let power := if exponent.head? == some 45 then -size else size
    some { digits := plain whole ++ fraction, exponent := power - fraction.length }

/-- Whether a decimal number rounds to a finite double. -/
def Decimal.isFinite (d : Decimal) : Bool :=
  let digits := d.digits.dropWhile (· == 48)
  let top := digits.length + d.exponent
  let m : Nat := digits.foldl (fun n b => n * 10 + (b.toNat - 48)) 0
  if digits.isEmpty || top < 309 then true
  else if 309 < top then false
  else
    let limit : Nat := Nat.pow 2 1024 - Nat.pow 2 970
    if d.exponent < 0 then m < limit * Nat.pow 10 d.exponent.natAbs
    else m * Nat.pow 10 d.exponent.natAbs < limit

def isFloat (s : Bytes) : Bool :=
  [Bytes.ascii "inf", Bytes.ascii "nan"].contains (dropSign s) || (decimal? s).any Decimal.isFinite

def twoDigits? : Bytes → Option (Nat × Bytes)
  | a :: b :: rest =>
    if Bytes.isDigit a && Bytes.isDigit b then
      some ((a.toNat - 48) * 10 + (b.toNat - 48), rest)
    else none
  | _ => none

def isLeap (year : Nat) : Bool := year % 4 == 0 && (year % 100 != 0 || year % 400 == 0)

def daysIn (year month : Nat) : Nat :=
  if month == 2 then (if isLeap year then 29 else 28)
  else if [4, 6, 9, 11].contains month then 30 else 31

def expect (b : UInt8) : Bytes → Option Bytes
  | x :: rest => if x = b then some rest else none
  | [] => none

def afterDate? (s : Bytes) : Option Bytes := do
  let (century, s) ← twoDigits? s
  let (year, s) ← twoDigits? s
  let s ← expect 45 s
  let (month, s) ← twoDigits? s
  let s ← expect 45 s
  let (day, s) ← twoDigits? s
  let valid := 1 ≤ month && month ≤ 12 && 1 ≤ day && day ≤ daysIn (century * 100 + year) month
  if valid then some s else none

def afterTime? (s : Bytes) : Option Bytes := do
  let (hour, s) ← twoDigits? s
  let s ← expect 58 s
  let (minute, s) ← twoDigits? s
  let s ← expect 58 s
  let (second, s) ← twoDigits? s
  if hour < 24 && minute < 60 && second < 60 then
    match s with
    | 46 :: b :: rest =>
      if Bytes.isDigit b then some (rest.dropWhile Bytes.isDigit) else none
    | _ => some s
  else none

def isZone (s : Bytes) : Bool :=
  match s with
  | [] => true
  | [90] => true
  | [122] => true
  | sign :: s =>
    (sign == 43 || sign == 45) &&
    ((do
      let (hour, s) ← twoDigits? s
      let s ← expect 58 s
      let (minute, s) ← twoDigits? s
      some (hour ≤ 24 && minute ≤ 60 && s.isEmpty)) : Option Bool).getD false

def isDate (s : Bytes) : Bool := afterDate? s == some []

def isMoment (s : Bytes) : Bool :=
  isDate s || afterTime? s == some [] ||
  match afterDate? s with
  | some (84 :: rest) => (afterTime? rest).any isZone
  | some (116 :: rest) => (afterTime? rest).any isZone
  | _ => false

/-- The character that a numeric escape stands for. -/
def numericEscape? (size : Nat) (s : Bytes) : Option (Bytes × Bytes) :=
  let digits := s.take size
  let n := digits.foldl (fun n b => n * 16 + (Numeral.digit? b).getD 0) 0
  if digits.length = size && digits.all isHexDigit && n.isValidChar then
    some (String.utf8EncodeChar (Char.ofNat n), s.drop size)
  else none

def escape? : Bytes → Option (Bytes × Bytes)
  | 98 :: rest => some ([8], rest)
  | 116 :: rest => some ([9], rest)
  | 110 :: rest => some ([10], rest)
  | 102 :: rest => some ([12], rest)
  | 114 :: rest => some ([13], rest)
  | 34 :: rest => some ([34], rest)
  | 92 :: rest => some ([92], rest)
  | 117 :: rest => numericEscape? 4 rest
  | 85 :: rest => numericEscape? 8 rest
  | _ => none

/-- A basic string after its first quote, and the rest of the text. -/
def basic : Nat → Bytes → Option (Bytes × Bytes)
  | 0, _ => none
  | _, [] => none
  | _, 34 :: rest => some ([], rest)
  | _, 10 :: _ => none
  | fuel + 1, 92 :: rest => do
    let (char, rest) ← escape? rest
    let (s, rest) ← basic fuel rest
    some (char ++ s, rest)
  | fuel + 1, b :: rest => (basic fuel rest).map fun r => (b :: r.1, r.2)

/-- A literal string after its first quote, and the rest of the text. -/
def literal (s : Bytes) : Option (Bytes × Bytes) :=
  match s.dropWhile fun b => b != 39 && b != 10 with
  | 39 :: rest => some (s.takeWhile fun b => b != 39 && b != 10, rest)
  | _ => none

/-- Three quotes or more in front of a text close a string, if there are at most `most` of them.
Those in front of the last three belong to the string. -/
def closing? (quote : UInt8) (most : Nat) (s : Bytes) : Option (Bytes × Bytes) :=
  let quotes := s.takeWhile (· == quote)
  if 3 ≤ quotes.length && quotes.length ≤ most then
    some (quotes.drop 3, s.dropWhile (· == quote))
  else none

/-- The string up to its last quotes. In a basic one, a backslash at the end of a line takes away
the white space up to the next text. It ends with at most five quotes, or six right after an escaped
backslash. -/
def multiline (quote : UInt8) : Nat → Nat → Bytes → Option (Bytes × Bytes)
  | 0, _, _ => none
  | _, _, [] => none
  | fuel + 1, most, b :: rest =>
    if b = quote then
      match closing? quote most (b :: rest) with
      | some r => some r
      | none =>
        if ((b :: rest).takeWhile (· == quote)).length < 3 then
          (multiline quote fuel 5 rest).map fun r => (b :: r.1, r.2)
        else none
    else if b = 92 ∧ quote = 34 then
      match rest.dropWhile Bytes.isGap with
      | 10 :: _ => multiline quote fuel 5 (rest.dropWhile fun b => Bytes.isGap b || b == 10)
      | _ => do
        let (char, after) ← escape? rest
        let (s, after) ← multiline quote fuel (if rest.head? = some 92 then 6 else 5) after
        some (char ++ s, after)
    else (multiline quote fuel 5 rest).map fun r => (b :: r.1, r.2)

/-- A string over several lines, after its first quotes, and the rest of the text. -/
def multilineString (quote : UInt8) (s : Bytes) : Option (Bytes × Bytes) :=
  multiline quote (s.length + 1) 5 s

end Reindent.Toml
