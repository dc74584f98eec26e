import Reindent.Markup
import Reindent.Script
import Reindent.Style

/-! What each mode recognises, and the tokens it makes of it. -/
namespace Reindent.Mode

/-- The lexemes of a mode, by priority. -/
def rules (embedded : Bool) : Mode → Rules
  | .text => Rules.template
  | .markup => Markup.rules
  | .tag _ => OpenTag.rules
  | .endTag => Markup.endTagRules
  | .style _ => StyleState.rules embedded
  | .script _ => ScriptState.rules embedded
  | .verbatim r => r.rules

/-- The kind of tokens that have no other. -/
def kind : Mode → Kind
  | .text => .text
  | .markup | .tag _ | .endTag => .markup
  | .style _ => .style
  | .script _ => .script
  | .verbatim _ => .text

/-- A token without effect on the mode, in its place on the line. -/
def settle (sight : Sight) (mode : Mode) (t : Token) : Token × Mode :=
  match mode with
  | .tag o => let (t, o) := o.settle sight t; (t, .tag o)
  | .style s => (s.settle sight t, mode)
  | .script s => let (t, s) := s.settle sight t; (t, .script s)
  | _ => (t, mode)

def readText (sight : Sight) (mode : Mode) (text : Bytes) : Token × Mode :=
  match mode with
  | .verbatim _ => (.verbatim text, mode)
  | _ => mode.settle sight (.plain text mode.kind)

def read (sight : Sight) (mode : Mode) (lexeme : Lexeme) (text : Bytes) : Token × Move :=
  match mode with
  | .text => (.plain text .text, .keep .text)
  | .markup => Markup.read sight lexeme text
  | .tag o => o.read sight lexeme text
  | .endTag => (.plain text .markup, .leave)
  | .style s => s.read sight lexeme text
  | .script s => s.read sight lexeme text
  | .verbatim _ =>
    (.verbatim text, if lexeme = .escape then .keep mode else .leave)

/-- How much of a match is taken as a token. The rest is read again. -/
def extent (embedded : Bool) (mode : Mode) (lexeme : Lexeme) (text : Bytes) :
    Except Overrun Nat :=
  match mode, lexeme with
  | .script _, .lineComment => ScriptState.commentLength embedded text
  | _, _ => .ok text.length

theorem extent_pos {embedded : Bool} {mode : Mode} {lexeme : Lexeme} {text : Bytes} {n : Nat}
    (ht : text ≠ []) (h : mode.extent embedded lexeme text = .ok n) : 0 < n := by
  have hl := List.length_pos_iff.2 ht
  unfold extent at h
  split at h
  · exact ScriptState.commentLength_pos ht h
  · simp only [Except.ok.injEq] at h; omega

end Reindent.Mode
