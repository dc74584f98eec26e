import Reindent.Text.Utf8

/-! Patterns over bytes. A pattern has an ordered list of ways to match, best first. -/
namespace Reindent

/-- A place reached while matching: the bytes taken so far, the last one first, and those ahead. -/
structure Span where
  taken : Bytes
  rest : Bytes
  deriving DecidableEq, Repr

/-- The text a place lies in. -/
def Span.whole (s : Span) : Bytes := s.taken.reverse ++ s.rest

/-- `run` takes accepted bytes in a row, as many as possible or as few as possible, and `many` takes
its body as often as possible. `avoid` takes nothing, where its body does not match. -/
inductive Pattern where
  | empty
  | one (accepts : UInt8 → Bool)
  | run (greedy : Bool) (accepts : UInt8 → Bool)
  | seq (first second : Pattern)
  | either (preferred other : Pattern)
  | many (body : Pattern)
  | avoid (body : Pattern)
  | wordEdge

namespace Pattern

instance : Append Pattern := ⟨.seq⟩

def byte (b : UInt8) : Pattern := .one (· == b)

def word (s : Bytes) : Pattern := s.foldr (fun b p => .seq (.byte b) p) .empty

def literal (s : String) : Pattern := .word (Bytes.ascii s)

def oneOf (s : String) : Pattern := .one (Bytes.ascii s).contains

def except (bytes : Bytes) (b : UInt8) : Bool := !bytes.contains b

def inLine : UInt8 → Bool := except [Bytes.newline]

def any : Pattern := .one inLine

def toLineEnd : Pattern := .run true inLine

/-- Any bytes of the line, up to what comes next. -/
def upTo : Pattern := .run false inLine

def optional (p : Pattern) : Pattern := .either p .empty

def gap : Pattern := .run true Bytes.isGap

def space : Pattern := .run true Bytes.isSpace

/-- The case variants of an ASCII letter, the long s and the Kelvin sign among them. -/
def caselessByte (b : UInt8) : Pattern :=
  let variants := .one fun x => Bytes.toLower x == b
  if b == 115 then .either variants (.word [0xC5, 0xBF])
  else if b == 107 then .either variants (.word [0xE2, 0x84, 0xAA])
  else variants

/-- A lower-case ASCII word in any mixture of cases. -/
def caseless (s : Bytes) : Pattern := s.foldr (fun b p => .seq (caselessByte b) p) .empty

def between (low high : UInt8) : Pattern := .one fun b => low ≤ b && b ≤ high

/-- The characters that take more than one byte, in their only well-formed spelling. -/
def wideChar : Pattern :=
  let tail := between 0x80 0xBF
  .either (between 0xC2 0xDF ++ tail) <|
  .either (byte 0xE0 ++ between 0xA0 0xBF ++ tail) <|
  .either (between 0xE1 0xEC ++ tail ++ tail) <|
  .either (byte 0xED ++ between 0x80 0x9F ++ tail) <|
  .either (between 0xEE 0xEF ++ tail ++ tail) <|
  .either (byte 0xF0 ++ between 0x90 0xBF ++ tail ++ tail) <|
  .either (between 0xF1 0xF3 ++ tail ++ tail ++ tail)
    (byte 0xF4 ++ between 0x80 0x8F ++ tail ++ tail)

/-- A byte that belongs to no character. -/
def strayByte : Pattern := .avoid wideChar ++ .one (0x80 ≤ ·)

/-- One whole character of the line, or a byte that belongs to none. -/
def anyChar : Pattern := .either wideChar (.avoid wideChar ++ any)

/-- A character as it is written. The replacement character also stands for a byte that belongs to
no character. -/
def symbol (s : Symbol) : Pattern :=
  if s = .char '\uFFFD' then .either (.word s.bytes) strayByte else .word s.bytes

/-- Exactly these characters in a row. -/
def text (s : Bytes) : Pattern := (Utf8.decode s).foldr (fun c p => .seq (symbol c) p) .empty

/-- The places that accepted bytes lead to, the farthest first and in front of `shorter`. -/
def reach (accepts : UInt8 → Bool) : Bytes → Bytes → List Span → List Span
  | taken, [], shorter => ⟨taken, []⟩ :: shorter
  | taken, b :: rest, shorter =>
    if accepts b then reach accepts (b :: taken) rest (⟨taken, b :: rest⟩ :: shorter)
    else ⟨taken, b :: rest⟩ :: shorter

/-- The places reached by repeating a step, those of more steps first. There are at most as many
steps as there are bytes in `ahead`. -/
def iterate (step : Span → List Span) : Bytes → Span → List Span
  | [], s => [s]
  | _ :: ahead, s => (step s).flatMap (iterate step ahead) ++ [s]

/-- Whether exactly one of two neighbours is a word byte. Nothing is no word byte. -/
def atEdge (left right : Option UInt8) : Bool := left.any Bytes.isWord != right.any Bytes.isWord

/-- All places at which a match that starts at `s` can end, the preferred one first. The byte in
front of the first one taken is `before`. -/
def ends (before : Option UInt8) : Pattern → Span → List Span
  | .empty, s => [s]
  | .one accepts, s =>
    match s.rest with
    | [] => []
    | b :: rest => if accepts b then [⟨b :: s.taken, rest⟩] else []
  | .run greedy accepts, s =>
    let places := reach accepts s.taken s.rest []
    if greedy then places else places.reverse
  | .seq first second, s => (first.ends before s).flatMap (second.ends before)
  | .either preferred other, s => preferred.ends before s ++ other.ends before s
  | .many body, s => iterate (body.ends before) s.rest s
  | .avoid body, s => if (body.ends before s).isEmpty then [s] else []
  | .wordEdge, s => if atEdge (s.taken.head?.or before) s.rest.head? then [s] else []

/-- The preferred match at the start of a text that takes at least one byte. -/
def match? (p : Pattern) (before : Option UInt8) (s : Bytes) : Option Span :=
  (p.ends before ⟨[], s⟩).find? (!·.taken.isEmpty)

/-- A match found in a text, with the label of its pattern. -/
structure Hit (α : Type) where
  skipped : Bytes
  label : α
  matched : Bytes
  rest : Bytes

/-- The first of the labelled patterns that matches at the start of a text. -/
def pick? {α : Type} (rules : List (α × Pattern)) (before : Option UInt8) (s : Bytes) :
    Option (α × Span) :=
  rules.findSome? fun r => (r.2.match? before s).map (r.1, ·)

/-- The leftmost match in a text. Of the patterns that match there, the first one counts. -/
def search {α : Type} (rules : List (α × Pattern)) : Option UInt8 → Bytes → Option (Hit α)
  | _, [] => none
  | before, b :: rest =>
    match pick? rules before (b :: rest) with
    | some (label, s) => some ⟨[], label, s.taken.reverse, s.rest⟩
    | none => (search rules (some b) rest).map fun h => { h with skipped := b :: h.skipped }

def occursIn (p : Pattern) (s : Bytes) : Bool := (search [((), p)] none s).isSome

def startsText (p : Pattern) (s : Bytes) : Bool := (p.match? none s).isSome

def isWhole (p : Pattern) (s : Bytes) : Bool := (p.ends none ⟨[], s⟩).any (·.rest.isEmpty)

theorem whole_of_mem_reach {accepts : UInt8 → Bool} {taken rest : Bytes} {shorter : List Span}
    {e : Span} (he : e ∈ reach accepts taken rest shorter) :
    e.whole = (⟨taken, rest⟩ : Span).whole ∨ e ∈ shorter := by
  induction rest generalizing taken shorter with
  | nil => exact (List.mem_cons.1 he).imp_left (congrArg Span.whole)
  | cons b rest ih =>
    simp only [reach] at he
    split at he
    · rcases ih he with h | h
      · exact Or.inl (by simpa [Span.whole] using h)
      · exact (List.mem_cons.1 h).imp_left (congrArg Span.whole)
    · exact (List.mem_cons.1 he).imp_left (congrArg Span.whole)

theorem whole_of_mem_iterate {step : Span → List Span}
    (h : ∀ s, ∀ e ∈ step s, e.whole = s.whole) (ahead : Bytes) (s e : Span)
    (he : e ∈ iterate step ahead s) : e.whole = s.whole := by
  induction ahead generalizing s with
  | nil => simp_all [iterate]
  | cons b ahead ih =>
    simp only [iterate, List.mem_append, List.mem_flatMap, List.mem_singleton] at he
    rcases he with ⟨m, hs, hi⟩ | rfl
    · rw [ih m hi, h s m hs]
    · rfl

/-- A match stays inside its text. -/
theorem whole_of_mem_ends {before : Option UInt8} {p : Pattern} {s e : Span}
    (he : e ∈ p.ends before s) : e.whole = s.whole := by
  induction p generalizing s e with
  | empty => simp_all [ends]
  | one accepts =>
    obtain ⟨taken, rest⟩ := s
    cases rest with
    | nil => simp [ends] at he
    | cons b rest =>
      simp only [ends] at he
      split at he
      · simp_all [Span.whole]
      · simp at he
  | run greedy accepts =>
    have hm : e ∈ reach accepts s.taken s.rest [] := by
      cases greedy with
      | false => simpa [ends] using he
      | true => simpa [ends] using he
    simpa using whole_of_mem_reach hm
  | seq first second ih₁ ih₂ =>
    simp only [ends, List.mem_flatMap] at he
    obtain ⟨m, hm, he⟩ := he
    rw [ih₂ he, ih₁ hm]
  | either preferred other ih₁ ih₂ =>
    simp only [ends, List.mem_append] at he
    exact he.elim ih₁ ih₂
  | many body ih => exact whole_of_mem_iterate (fun _ _ => ih) _ _ _ he
  | avoid body =>
    simp only [ends] at he
    split at he <;> simp_all
  | wordEdge =>
    simp only [ends] at he
    split at he <;> simp_all

theorem match?_split {p : Pattern} {before : Option UInt8} {s : Bytes} {e : Span}
    (h : p.match? before s = some e) : e.taken ≠ [] ∧ e.taken.reverse ++ e.rest = s := by
  refine ⟨?_, ?_⟩
  · have := List.find?_some h
    simpa using this
  · simpa [Span.whole] using whole_of_mem_ends (List.mem_of_find?_eq_some h)

/-- A match is not empty, and a text is what was skipped, the match and the rest. -/
theorem search_split {α : Type} {rules : List (α × Pattern)} {before : Option UInt8} {s : Bytes}
    {h : Hit α} (hs : search rules before s = some h) :
    h.matched ≠ [] ∧ h.skipped ++ h.matched ++ h.rest = s := by
  induction s generalizing before h with
  | nil => simp [search] at hs
  | cons b rest ih =>
    simp only [search] at hs
    split at hs
    · next label e he =>
      obtain ⟨r, -, hr⟩ := List.exists_of_findSome?_eq_some he
      obtain ⟨e', he', heq⟩ := Option.map_eq_some_iff.1 hr
      obtain ⟨-, rfl⟩ := Prod.mk.inj heq
      obtain ⟨h₁, h₂⟩ := match?_split he'
      obtain rfl := Option.some.inj hs
      simp_all
    · obtain ⟨h', hh, rfl⟩ := Option.map_eq_some_iff.1 hs
      obtain ⟨h₁, h₂⟩ := ih hh
      exact ⟨h₁, by simpa using h₂⟩

end Pattern
end Reindent
