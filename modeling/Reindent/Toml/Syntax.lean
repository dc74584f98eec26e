import Reindent.Text.Utf8
import Reindent.Toml.Scalar

/-! The statements of a TOML document. -/
namespace Reindent.Toml

abbrev Key := List Bytes

/-- A value as it is written. Of numbers and dates that are no integers only the form is checked. -/
inductive Expr where
  | integer (n : Int64)
  | string (text : Bytes)
  | boolean (b : Bool)
  | float
  | moment
  | array (items : List Expr)
  | inline (pairs : List (Key × Expr))

inductive Statement where
  | table (key : Key)
  | tableArray (key : Key)
  | pair (key : Key) (value : Expr)

def skipGap (s : Bytes) : Bytes := s.dropWhile Bytes.isGap

/-- A comment reaches to the end of its line. -/
def skipComment (s : Bytes) : Bytes :=
  if s.head? = some 35 then s.dropWhile (· != 10) else s

/-- Skips white space, newlines and comments. -/
def skipBlank : Nat → Bytes → Bytes
  | 0, s => s
  | fuel + 1, s =>
    match s with
    | 35 :: _ => skipBlank fuel (skipComment s)
    | b :: rest => if Bytes.isGap b || b == 10 then skipBlank fuel rest else s
    | [] => []

def isBareByte (b : UInt8) : Bool := Bytes.isWord b || b == 45

def keyPart (s : Bytes) : Option (Bytes × Bytes) :=
  match s with
  | 34 :: rest => basic (rest.length + 1) rest
  | 39 :: rest => literal rest
  | _ =>
    let bare := s.takeWhile isBareByte
    if bare.isEmpty then none else some (bare, s.dropWhile isBareByte)

def key : Nat → Bytes → Option (Key × Bytes)
  | 0, _ => none
  | fuel + 1, s => do
    let (part, rest) ← keyPart (skipGap s)
    match skipGap rest with
    | 46 :: rest =>
      let (more, rest) ← key fuel rest
      some (part :: more, rest)
    | rest => some ([part], rest)

/-- Bytes of numbers, dates and words. -/
def isPlainByte (b : UInt8) : Bool := Bytes.isWord b || [43, 45, 46, 58].contains b

/-- A number, a date or a word. A date and a time may stand apart. -/
def plain (s : Bytes) : Option (Expr × Bytes) :=
  let text := s.takeWhile isPlainByte
  let rest := s.dropWhile isPlainByte
  if text == Bytes.ascii "true" then some (.boolean true, rest)
  else if text == Bytes.ascii "false" then some (.boolean false, rest)
  else if isDate text then
    match rest with
    | 32 :: b :: more =>
      if Bytes.isDigit b then
        let time := (b :: more).takeWhile isPlainByte
        if isMoment (text ++ 84 :: time) then
          some (.moment, (b :: more).dropWhile isPlainByte)
        else none
      else some (.moment, rest)
    | _ => some (.moment, rest)
  else match integer? text with
    | some n => some (.integer n, rest)
    | none =>
      if isInteger text then none
      else if isFloat text then some (.float, rest)
      else if isMoment text then some (.moment, rest)
      else none

mutual

def value : Nat → Bytes → Option (Expr × Bytes)
  | 0, _ => none
  | fuel + 1, s =>
    match skipGap s with
    | 91 :: rest => (items fuel rest).map fun r => (.array r.1, r.2)
    | 0x7B :: rest =>
      match skipGap rest with
      | 0x7D :: rest => some (.inline [], rest)
      | rest => (pairs fuel rest).map fun r => (.inline r.1, r.2)
    | 34 :: 34 :: 34 :: rest => (multilineString 34 rest).map fun r => (.string r.1, r.2)
    | 39 :: 39 :: 39 :: rest => (multilineString 39 rest).map fun r => (.string r.1, r.2)
    | 34 :: rest => (basic (rest.length + 1) rest).map fun r => (.string r.1, r.2)
    | 39 :: rest => (literal rest).map fun r => (.string r.1, r.2)
    | s => plain s

/-- The items of an array after its bracket or after a comma. -/
def items : Nat → Bytes → Option (List Expr × Bytes)
  | 0, _ => none
  | fuel + 1, s =>
    match skipBlank s.length s with
    | 93 :: rest => some ([], rest)
    | s => do
      let (item, rest) ← value fuel s
      match skipBlank rest.length rest with
      | 44 :: rest =>
        let (more, rest) ← items fuel rest
        some (item :: more, rest)
      | 93 :: rest => some ([item], rest)
      | _ => none

def pairs : Nat → Bytes → Option (List (Key × Expr) × Bytes)
  | 0, _ => none
  | fuel + 1, s => do
    let (name, rest) ← key (s.length + 1) s
    let rest ← expect 61 rest
    let (item, rest) ← value fuel rest
    match skipGap rest with
    | 44 :: rest =>
      let (more, rest) ← pairs fuel rest
      some ((name, item) :: more, rest)
    | 0x7D :: rest => some ([(name, item)], rest)
    | _ => none

end

/-- A statement ends with its line. -/
def endOfLine (s : Bytes) : Option Bytes :=
  match skipComment (skipGap s) with
  | [] => some []
  | 10 :: rest => some rest
  | _ => none

def statement (s : Bytes) : Option (Statement × Bytes) :=
  match s with
  | 91 :: 91 :: rest => do
    let (name, rest) ← key (rest.length + 1) rest
    let rest ← expect 93 rest
    let rest ← expect 93 rest
    some (.tableArray name, rest)
  | 91 :: rest => do
    let (name, rest) ← key (rest.length + 1) rest
    let rest ← expect 93 rest
    some (.table name, rest)
  | _ => do
    let (name, rest) ← key (s.length + 1) s
    let rest ← expect 61 rest
    let (item, rest) ← value (rest.length + 1) rest
    some (.pair name item, rest)

def statements : Nat → Bytes → Option (List Statement)
  | 0, _ => none
  | fuel + 1, s =>
    match skipBlank s.length s with
    | [] => some []
    | s => do
      let (first, rest) ← statement s
      let rest ← endOfLine rest
      let more ← statements fuel rest
      some (first :: more)

/-- The text without a byte order mark. -/
def dropMark (s : Bytes) : Bytes :=
  match s with
  | 0xFF :: 0xFE :: rest => rest
  | 0xFE :: 0xFF :: rest => rest
  | 0xEF :: 0xBB :: 0xBF :: rest => rest
  | _ => s

/-- Control characters are refused but for tabs and line ends; a carriage return only comes in front
of a newline. -/
def hasOnlyText : Bytes → Bool
  | [] => true
  | 13 :: 10 :: rest => hasOnlyText rest
  | b :: rest => (b == 9 || b == 10 || (32 ≤ b && b != 127)) && hasOnlyText rest

/-- The statements of a document. Both kinds of line ends mean the same. -/
def read? (source : Bytes) : Option (List Statement) :=
  let s := dropMark source
  if Utf8.isWellFormed s && hasOnlyText s then
    let s := s.filter (· != 13)
    statements (s.length + 1) s
  else none

end Reindent.Toml
