/-! Byte strings: ASCII literals, lines, searching and cutting. -/
namespace Reindent

/-- Documents, file names and messages are byte strings; they need not be well-formed text. -/
abbrev Bytes := List UInt8

namespace Bytes

def ascii (s : String) : Bytes := s.toList.map fun c => c.toNat.toUInt8

def newline : UInt8 := 10

/-- The lines of a text: the pieces between its newlines. There is always a last one. -/
def lines : Bytes → List Bytes
  | [] => [[]]
  | b :: rest =>
    if b = newline then [] :: lines rest
    else match lines rest with
      | [] => [[b]]
      | l :: ls => (b :: l) :: ls

/-- Lines put together again, with a newline between neighbours. -/
def joinLines : List Bytes → Bytes
  | [] => []
  | [l] => l
  | l :: ls => l ++ newline :: joinLines ls

theorem lines_ne_nil (s : Bytes) : lines s ≠ [] := by
  cases s with
  | nil => simp [lines]
  | cons b rest =>
    simp only [lines]
    split
    · simp
    · split <;> simp

theorem joinLines_cons {l : Bytes} {ls : List Bytes} (h : ls ≠ []) :
    joinLines (l :: ls) = l ++ newline :: joinLines ls := by
  cases ls with
  | nil => exact absurd rfl h
  | cons m ms => rfl

/-- Splitting loses nothing. -/
theorem joinLines_lines (s : Bytes) : joinLines (lines s) = s := by
  induction s with
  | nil => rfl
  | cons b rest ih =>
    by_cases h : b = newline
    · simp [lines, h, joinLines_cons (lines_ne_nil rest), ih]
    · cases hl : lines rest with
      | nil => exact absurd hl (lines_ne_nil rest)
      | cons l ls =>
        rw [hl] at ih
        simp only [lines, h, hl, if_false]
        cases ls with
        | nil => simpa [joinLines] using ih
        | cons m ms => simpa [joinLines] using ih

/-- No line holds a newline. -/
theorem newline_notMem_of_mem_lines {s l : Bytes} (h : l ∈ lines s) : newline ∉ l := by
  induction s generalizing l with
  | nil => simp_all [lines]
  | cons b rest ih =>
    by_cases hb : b = newline
    · simp only [lines, hb, if_true, List.mem_cons] at h
      rcases h with rfl | h
      · simp
      · exact ih h
    · cases hl : lines rest with
      | nil => exact absurd hl (lines_ne_nil rest)
      | cons m ms =>
        simp only [lines, hb, hl, if_false, List.mem_cons] at h
        rcases h with rfl | h
        · have := ih (l := m) (by simp [hl])
          simp only [List.mem_cons, not_or]
          exact ⟨fun e => hb e.symm, this⟩
        · exact ih (by simp [hl, h])

/-- What follows `start`, if the text begins with it. -/
def after? (start : Bytes) (s : Bytes) : Option Bytes :=
  if start.isPrefixOf s then some (s.drop start.length) else none

/-- Where `part` first occurs. -/
def find? (part : Bytes) : Bytes → Option Nat
  | [] => if part.isEmpty then some 0 else none
  | b :: rest => if part.isPrefixOf (b :: rest) then some 0 else (find? part rest).map (· + 1)

/-- The two sides of the first `mark`. -/
def cut? (mark : UInt8) (s : Bytes) : Option (Bytes × Bytes) :=
  match s.dropWhile (· != mark) with
  | [] => none
  | _ :: rest => some (s.takeWhile (· != mark), rest)

/-- The pieces between separators, without the separators; there is always one piece. -/
def splitOn (mark : UInt8) : Bytes → List Bytes
  | [] => [[]]
  | b :: rest =>
    if b = mark then [] :: splitOn mark rest
    else match splitOn mark rest with
      | [] => [[b]]
      | l :: ls => (b :: l) :: ls

theorem splitOn_ne_nil (mark : UInt8) (s : Bytes) : splitOn mark s ≠ [] := by
  cases s with
  | nil => simp [splitOn]
  | cons b rest =>
    unfold splitOn
    split
    · simp
    · split <;> simp

/-- A separator ends a piece. -/
theorem splitOn_append (mark : UInt8) (a b : Bytes) :
    splitOn mark (a ++ mark :: b) = splitOn mark a ++ splitOn mark b := by
  induction a with
  | nil => simp [splitOn]
  | cons x a ih =>
    rw [List.cons_append, splitOn, splitOn, ih]
    by_cases hx : x = mark
    · rw [if_pos hx, if_pos hx, List.cons_append]
    · rw [if_neg hx, if_neg hx]
      cases ha : splitOn mark a with
      | nil => exact absurd ha (splitOn_ne_nil mark a)
      | cons p ps => rfl

def join (separator : Bytes) : List Bytes → Bytes
  | [] => []
  | [l] => l
  | l :: ls => l ++ separator ++ join separator ls

def isDigit (b : UInt8) : Bool := 48 ≤ b && b ≤ 57
def isUpper (b : UInt8) : Bool := 65 ≤ b && b ≤ 90
def isLower (b : UInt8) : Bool := 97 ≤ b && b ≤ 122
def isLetter (b : UInt8) : Bool := isUpper b || isLower b

/-- ASCII letters, digits and the underscore. -/
def isWord (b : UInt8) : Bool := isLetter b || isDigit b || b == 95

/-- Tab, newline, form feed, carriage return and space. -/
def isSpace (b : UInt8) : Bool := b == 9 || b == 10 || b == 12 || b == 13 || b == 32

def isGap (b : UInt8) : Bool := b == 32 || b == 9

def toLower (b : UInt8) : UInt8 := if isUpper b then b + 32 else b

/-- Dictionary order by byte value. -/
def before : Bytes → Bytes → Bool
  | [], [] => false
  | [], _ :: _ => true
  | _ :: _, [] => false
  | a :: as, b :: bs => a < b || (a == b && before as bs)

end Bytes
end Reindent
