import Reindent.Mode
import Reindent.Text.Lowercase

/-! Scripts. A line that starts with a dot goes on with a chain of calls, and the labels of a switch
statement indent what follows them. -/
namespace Reindent

/-- The cut of a line comment lies behind its end. -/
structure Overrun where
  deriving DecidableEq, Repr

namespace ScriptState

def comments : Rules :=
  [(.lineComment, .literal "//" ++ .toLineEnd), (.commentStart, .literal "/*")]

def backtick : Rules := [(.backtick, .byte 96)]

def closer : Rules := [(.closer, Rules.closing (Bytes.ascii "script"))]

/-- Words and marks that tell about switch statements and chains of calls. -/
def words : Rules :=
  [(.switchWord, .wordEdge ++ .literal "switch" ++ .wordEdge),
   (.caseWord, .wordEdge ++ .either (.literal "case") (.literal "default") ++ .wordEdge),
   (.ellipsis, .literal "..."),
   (.dot, .literal ".")]

/-- An embedded script ends with the closing tag of its element. -/
def rules (embedded : Bool) : Rules :=
  Rules.template ++ comments ++ Rules.strings ++ backtick ++ (if embedded then closer else []) ++
    words ++ Rules.brackets

/-- A line comment that turns formatting off. -/
def formatOff : Pattern := .literal "//" ++ .space ++ .literal "fmt:off" ++ .wordEdge

/-- How much of a line comment is taken: in an embedded script only the part in front of a closing
tag. The tag is looked for in the lower-case form of the comment, which need not have the length of
the comment itself. -/
def commentLength (embedded : Bool) (text : Bytes) : Except Overrun Nat :=
  if !embedded || formatOff.startsText text then .ok text.length
  else match Bytes.find? (Bytes.ascii "</script") (Text.lowercase text) with
    | none => .ok text.length
    | some 0 => .ok text.length
    | some (i + 1) => if i + 1 ≤ text.length then .ok (i + 1) else .error {}

theorem commentLength_pos {embedded : Bool} {text : Bytes} {n : Nat} (ht : text ≠ [])
    (h : commentLength embedded text = .ok n) : 0 < n := by
  have hl := List.length_pos_iff.2 ht
  simp only [commentLength] at h
  split at h
  · simp_all
  · split at h
    · simp_all
    · simp_all
    · split at h
      · simp only [Except.ok.injEq] at h; omega
      · simp at h

def base (s : ScriptState) : Int64 := (s.frames.head?.map Frame.offset).getD 0

/-- A token that starts a line gets the inherited offset. -/
def settle (sight : Sight) (s : ScriptState) (t : Token) : Token × ScriptState :=
  if sight.leads t then ({ t with offset := s.base }, { s with lineOffset := s.base }) else (t, s)

/-- A label indents only directly inside the body of a switch statement. Every label but the first
closes the one before it. -/
def label (s : ScriptState) (text : Bytes) : Token × ScriptState :=
  match s.frames with
  | f :: frames =>
    if f.hard then
      (if f.caseOpen then .reopening text .case else .opening text .case,
       { s with frames := { f with caseOpen := true } :: frames })
    else (.plain text .script, s)
  | [] => (.plain text .script, s)

/-- A dot at the start of a line shifts the line by one tab. -/
def dot (sight : Sight) (s : ScriptState) (text : Bytes) : Token × ScriptState :=
  let t := Token.plain text .script
  if sight.atStart then
    let offset := s.base + sight.tabWidth
    ({ t with offset }, { s with lineOffset := offset })
  else (t, s)

/-- The first brace after the word `switch` starts the body of the statement. -/
def openBracket (sight : Sight) (s : ScriptState) (text : Bytes) : Token × ScriptState :=
  let (t, s) := s.settle sight (.opening text .script)
  if s.switching && text == Bytes.ascii "\x7b" then
    ({ t with kind := .switch },
     { s with frames := { offset := s.lineOffset, hard := true } :: s.frames, switching := false })
  else (t, { s with frames := { offset := s.lineOffset } :: s.frames })

/-- A bracket that starts a line gets the offset of the line that holds its partner. -/
def closeBracket (sight : Sight) (s : ScriptState) (text : Bytes) : Token × ScriptState :=
  match s.frames with
  | [] => (.closing text .script, s)
  | f :: frames =>
    let t := Token.closing text (if f.hard then .switch else .script)
    let s := { s with frames }
    if sight.atStart then ({ t with offset := f.offset }, { s with lineOffset := f.offset })
    else (t, s)

def read (sight : Sight) (s : ScriptState) (lexeme : Lexeme) (text : Bytes) : Token × Move :=
  let keep (r : Token × ScriptState) : Token × Move := (r.1, .keep (.script r.2))
  let enter (region : Region) : Token × Move :=
    let (t, s) := s.settle sight (.plain text .script)
    (t, .enter (.script s) (.verbatim region))
  match lexeme with
  | .lineComment =>
    if formatOff.startsText text then enter .scriptOff
    else keep (s.settle sight (.plain text .script))
  | .commentStart => enter .codeComment
  | .backtick => enter .templateLiteral
  | .closer => (.closing text .markup, .leave)
  | .switchWord => keep ({ s with switching := true }.settle sight (.plain text .script))
  | .caseWord =>
    let (t, s) := s.label text
    keep (s.settle sight t)
  | .dot => keep (s.dot sight text)
  | .openBracket => keep (s.openBracket sight text)
  | .closeBracket => keep (s.closeBracket sight text)
  | _ => keep (s.settle sight (.plain text .script))

end ScriptState
end Reindent
