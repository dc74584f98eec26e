import Reindent.Mode

/-! Style sheets. Brackets nest, and a declaration may go on over several lines. -/
namespace Reindent.StyleState

def comments : Rules :=
  [(.formatOff, .literal "/*" ++ .gap ++ .literal "fmt:off" ++ .gap ++ .literal "*/"),
   (.commentStart, .literal "/*")]

def closer : Rules := [(.closer, Rules.closing (Bytes.ascii "style"))]

def marks : Rules := [(.semicolon, .literal ";"), (.colon, .literal ":")]

/-- An embedded style sheet ends with the closing tag of its element. -/
def rules (embedded : Bool) : Rules :=
  Rules.template ++ comments ++ Rules.strings ++ (if embedded then closer else []) ++
    Rules.brackets ++ marks

/-- A line that goes on with a declaration is shifted by one tab. -/
def settle (sight : Sight) (s : StyleState) (t : Token) : Token :=
  if s.inDeclaration && sight.leads t then { t with offset := sight.tabWidth } else t

def openBracket (s : StyleState) (text : Bytes) : StyleState :=
  { brackets := text.headD 0 :: s.brackets
    inDeclaration := s.inDeclaration && text != Bytes.ascii "\x7b" }

def closeBracket (s : StyleState) (text : Bytes) : StyleState :=
  { brackets := s.brackets.tail
    inDeclaration := s.inDeclaration && text != Bytes.ascii "\x7d" }

/-- A colon directly inside braces starts the value of a declaration. -/
def colon (s : StyleState) : StyleState :=
  { s with inDeclaration := s.inDeclaration || s.brackets.head? == some 0x7B }

def read (sight : Sight) (s : StyleState) (lexeme : Lexeme) (text : Bytes) : Token × Move :=
  let t := s.settle sight (.plain text .style)
  match lexeme with
  | .formatOff => (t, .enter (.style s) (.verbatim .styleOff))
  | .commentStart => (t, .enter (.style s) (.verbatim .codeComment))
  | .closer => (.closing text .markup, .leave)
  | .openBracket => (s.settle sight (.opening text .style), .keep (.style (s.openBracket text)))
  | .closeBracket => (.closing text .style, .keep (.style (s.closeBracket text)))
  | .semicolon => (t, .keep (.style { s with inDeclaration := false }))
  | .colon => (t, .keep (.style s.colon))
  | _ => (t, .keep (.style s))

end Reindent.StyleState
