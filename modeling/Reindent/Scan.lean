import Reindent.Mode.Reading
import Reindent.ModeStack
import Reindent.Template

/-! From a document to lines of tokens. -/
namespace Reindent

namespace Scan

structure Settings where
  tabWidth : Int64 := 4
  blocks : Blocks := []
  deriving DecidableEq, Repr

structure State where
  modes : ModeStack
  memory : Lookahead := []
  deriving DecidableEq, Repr

def readLexeme (settings : Settings) (below : Bytes) (state : State) (sight : Sight)
    (lexeme : Lexeme) (text : Bytes) : Token × State :=
  let mode := state.modes.active
  if lexeme.isTemplate then
    let (t, region?, memory) :=
      Template.read settings.blocks state.memory lexeme text (sight.rest ++ below)
    let (t, self) := mode.settle sight t
    let move := match region? with
      | some region => Move.enter self (.verbatim region)
      | none => .keep self
    (t, { modes := state.modes.apply move, memory })
  else
    let (t, move) := mode.read sight lexeme text
    (t, { state with modes := state.modes.apply move })

/-- Adds the text between lexemes to the line, if there is any. -/
def readGap (settings : Settings) (state : State) (line : Line) (text rest : Bytes) :
    Line × State :=
  if text.isEmpty then (line, state)
  else
    let (t, mode) := state.modes.active.readText ⟨settings.tabWidth, line, rest⟩ text
    (line.append t, { state with modes := state.modes.setActive mode })

/-- What comes next on a line: its end, a lexeme that cannot be taken, or one more lexeme. -/
inductive Step where
  | finished (state : State) (line : Line)
  | failed (state : State) (overrun : Overrun)
  | next (state : State) (line : Line) (rest : Bytes)

/-- Reads the text up to the next lexeme, and the lexeme. -/
def step (settings : Settings) (below : Bytes) (state : State) (line : Line) (rest : Bytes) :
    Step :=
  match Pattern.search (state.modes.active.rules state.modes.embedded) none rest with
  | none =>
    let (line, state) := readGap settings state line rest []
    .finished state line
  | some hit =>
    let (line, state) := readGap settings state line hit.skipped (hit.matched ++ hit.rest)
    match state.modes.active.extent state.modes.embedded hit.label hit.matched with
    | .error overrun => .failed state overrun
    | .ok n =>
      let after := hit.matched.drop n ++ hit.rest
      let (t, state) := readLexeme settings below state ⟨settings.tabWidth, line, after⟩ hit.label
        (hit.matched.take n)
      .next state (line.append t) after

/-- A step that is not the last one leaves less to read. -/
theorem length_lt_of_step {settings : Settings} {below : Bytes} {state state' : State}
    {line line' : Line} {rest rest' : Bytes}
    (h : step settings below state line rest = .next state' line' rest') :
    rest'.length < rest.length := by
  simp only [step] at h
  split at h
  · simp at h
  · next hit hs =>
    split at h
    · simp at h
    · next n he =>
      obtain ⟨-, -, rfl⟩ := Step.next.inj h
      obtain ⟨hm, hr⟩ := Pattern.search_split hs
      have hn := Mode.extent_pos hm he
      have hl := List.length_pos_iff.2 hm
      rw [← hr]
      simp only [List.length_append, List.length_drop]
      omega

/-- The next tag whose text is tested, and the line in front of it. -/
def tested? (settings : Settings) (state : State) (line : Line) (rest : Bytes) :
    Option (Line × Bytes) := do
  let hit ← Pattern.search (state.modes.active.rules state.modes.embedded) none rest
  if hit.label = .templateBlock && Template.isTested settings.blocks hit.matched then
    some ((readGap settings state line hit.skipped (hit.matched ++ hit.rest)).1, hit.matched)
  else none

/-- What ends a run early: text out of range, or a test in front of a step that is not passed. -/
structure Guard (ε : Type) where
  overrun : Overrun → ε
  refuse? : State → Line → Bytes → Option ε

/-- Runs that only text out of range ends early. -/
def Guard.plain : Guard Overrun := { overrun := id, refuse? := fun _ _ _ => none }

def readLineWith {ε : Type} (guard : Guard ε) (settings : Settings) (below : Bytes) (state : State)
    (line : Line) (rest : Bytes) : State × Except ε Line :=
  match guard.refuse? state line rest with
  | some e => (state, .error e)
  | none =>
    match h : step settings below state line rest with
    | .finished state line => (state, .ok line)
    | .failed state overrun => (state, .error (guard.overrun overrun))
    | .next state line rest' =>
      have : rest'.length < rest.length := length_lt_of_step h
      readLineWith guard settings below state line rest'
termination_by rest.length

def readLine (settings : Settings) (below : Bytes) (state : State) (line : Line) (rest : Bytes) :
    State × Except Overrun Line :=
  readLineWith .plain settings below state line rest

/-- The lines of a text, each with what follows it, its newline included. -/
def linesBelow : Bytes → List (Bytes × Bytes)
  | [] => [([], [])]
  | b :: rest =>
    if b = Bytes.newline then ([], b :: rest) :: linesBelow rest
    else match linesBelow rest with
      | [] => [([b], [])]
      | (l, below) :: ls => (b :: l, below) :: ls

theorem linesBelow_ne_nil (s : Bytes) : linesBelow s ≠ [] := by
  cases s with
  | nil => simp [linesBelow]
  | cons b rest =>
    simp only [linesBelow]
    split
    · simp
    · split <;> simp

theorem map_fst_linesBelow (s : Bytes) : (linesBelow s).map Prod.fst = Bytes.lines s := by
  induction s with
  | nil => rfl
  | cons b rest ih =>
    by_cases h : b = Bytes.newline
    · simp [linesBelow, Bytes.lines, h, ih]
    · cases hl : linesBelow rest with
      | nil => exact absurd hl (linesBelow_ne_nil rest)
      | cons l ls =>
        rw [hl, List.map_cons] at ih
        simp [linesBelow, Bytes.lines, h, hl, ← ih]

def readLinesWith {ε : Type} (guard : Guard ε) (settings : Settings) : State → Int64 →
    List (Bytes × Bytes) → State × Except ε (List Line)
  | state, _, [] => (state, .ok [])
  | state, number, (text, below) :: rest =>
    match readLineWith guard settings below state { number } text with
    | (state, .error e) => (state, .error e)
    | (state, .ok line) =>
      match readLinesWith guard settings state (number + 1) rest with
      | (state, .error e) => (state, .error e)
      | (state, .ok lines) => (state, .ok (line :: lines))

def readLines (settings : Settings) (state : State) (number : Int64)
    (texts : List (Bytes × Bytes)) : State × Except Overrun (List Line) :=
  readLinesWith .plain settings state number texts

theorem readLines_cons (settings : Settings) (state : State) (number : Int64) (text below : Bytes)
    (rest : List (Bytes × Bytes)) : readLines settings state number ((text, below) :: rest) =
      match readLine settings below state { number } text with
      | (state, .error overrun) => (state, .error overrun)
      | (state, .ok line) =>
        match readLines settings state (number + 1) rest with
        | (state, .error overrun) => (state, .error overrun)
        | (state, .ok lines) => (state, .ok (line :: lines)) := by
  rw [readLines, readLinesWith, readLine]
  cases readLineWith .plain settings below state { number } text with
  | mk state result =>
    cases result with
    | error overrun => rfl
    | ok line =>
      dsimp only [readLines]
      cases readLinesWith .plain settings state (number + 1) rest with
      | mk state result => cases result <;> rfl

/-- Reads a document and tells what became of the modes. -/
def run (settings : Settings) (modes : ModeStack) (source : Bytes) :
    ModeStack × Except Overrun (List Line) :=
  let (state, result) := readLines settings { modes } 1 (linesBelow source)
  (state.modes, result)

/-- Reads several documents, each from the start modes as the one before left them. -/
def runAll (settings : Settings) : ModeStack → List Bytes → List (Except Overrun (List Line))
  | _, [] => []
  | modes, source :: rest =>
    let (modes, result) := run settings modes source
    result :: runAll settings modes.rewind rest

end Scan

/-- The lines of a document, read from a fresh stack of modes. -/
def tokenize (settings : Scan.Settings) (modes : ModeStack) (source : Bytes) :
    Except Overrun (List Line) :=
  (Scan.run settings modes source).2

end Reindent
