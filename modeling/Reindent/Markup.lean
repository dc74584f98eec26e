import Reindent.Mode

/-! Markup: comments, opening tags with their attributes, and closing tags. -/
namespace Reindent

namespace Markup

def voidElements : List Bytes :=
  ["area", "base", "br", "col", "command", "embed", "hr", "img", "input", "keygen", "link", "meta",
   "param", "source", "track", "wbr"].map Bytes.ascii

def nameTail : Pattern :=
  .run true fun b => Bytes.isWord b || (Bytes.ascii ".:-").contains b

def name : Pattern := .one Bytes.isLetter ++ nameTail

def tags : Rules :=
  [(.formatOff, .literal "<!--" ++ .gap ++ .literal "fmt:off" ++ .gap ++ .literal "-->"),
   (.commentStart, .literal "<!--"),
   (.endTag, .literal "</" ++ name ++ .gap ++ .literal ">"),
   (.endTagStart, .literal "</" ++ name),
   (.tagStart, .literal "<" ++ name)]

def rules : Rules := Rules.template ++ tags

def elementName (s : Bytes) : Bytes :=
  (s.takeWhile fun b => !(Bytes.ascii " \t\r\n>/").contains b).map Bytes.toLower

/-- The gap between the name of a tag and its first attribute, if there is one on the same line. -/
def attributeGap? (rest : Bytes) : Option Nat :=
  let gap := rest.takeWhile Bytes.isGap
  if gap.isEmpty then none
  else match rest.dropWhile Bytes.isGap with
    | [] => none
    | 10 :: _ => none
    | 13 :: _ => none
    | 62 :: _ => none
    | 47 :: 62 :: _ => none
    | _ => some gap.length

/-- An opening tag starts. Its offset is the column of its first attribute less one tab, as the
lines of a tag are one level deeper than the tag. -/
def openTag (sight : Sight) (text : Bytes) : OpenTag :=
  { name := elementName (text.drop 1)
    source := text
    offset := match attributeGap? sight.rest with
      | some gap =>
        sight.line.column + Int64.ofNat (Utf8.count text) + Int64.ofNat gap - sight.tabWidth
      | none => 0 }

/-- Closing tags of elements whose opening tag is closed by its own bracket close nothing. -/
def endToken (text : Bytes) : Token :=
  let element := elementName (text.drop 2)
  if voidElements.contains element || (Preformatted.ofName? element).isSome then
    .plain text .markup
  else .closing text .markup

def read (sight : Sight) (lexeme : Lexeme) (text : Bytes) : Token × Move :=
  match lexeme with
  | .formatOff => (.plain text .markup, .enter .markup (.verbatim .markupOff))
  | .commentStart => (.plain text .markup, .enter .markup (.verbatim .markupComment))
  | .endTag => (endToken text, .keep .markup)
  | .endTagStart => (endToken text, .enter .markup .endTag)
  | _ => (.opening text .markup, .enter .markup (.tag (openTag sight text)))

def endTagRules : Rules := [(.tagEnd, .literal ">")]

end Markup

namespace OpenTag

def parts : Rules :=
  [(.emptyTagEnd, .literal "/>"),
   (.tagEnd, .literal ">"),
   (.string, .byte 34 ++ .run true (Pattern.except [34, Bytes.newline]) ++ .byte 34),
   (.string, .byte 39 ++ .run true (Pattern.except [39, Bytes.newline]) ++ .byte 39)]

def rules : Rules := Rules.template ++ parts

/-- The type attribute of a script element that holds markup. -/
def templateScript : Pattern :=
  let types := ["template", "x-template", "html", "ng-template", "x-handlebars-template", "x-tmpl",
    "x-jsrender"]
  .wordEdge ++ .caseless (Bytes.ascii "type") ++ .space ++ .literal "=" ++ .space ++
    .optional (.oneOf "\"'") ++ .caseless (Bytes.ascii "text/") ++
    types.foldr (fun t p => .either (.caseless (Bytes.ascii t) ++ .wordEdge) p)
      (.one fun _ => false)

/-- A token inside the tag. One that starts a line gets the tag's offset. -/
def settle (sight : Sight) (tag : OpenTag) (t : Token) : Token × OpenTag :=
  (if sight.leads t then { t with offset := tag.offset } else t,
   { tag with source := tag.source ++ t.text })

/-- The mode after the tag, in which the content of the element is read. -/
def content (tag : OpenTag) : Move :=
  if tag.name == Bytes.ascii "style" then .keep (.style {})
  else if tag.name == Bytes.ascii "script" then
    if templateScript.occursIn tag.source then .leave else .keep (.script {})
  else .leave

/-- The bracket that ends the tag closes it at once if the element has no content to be indented. -/
def finish (sight : Sight) (tag : OpenTag) (text : Bytes) : Token × Move :=
  if Markup.voidElements.contains tag.name then (.closing text .markup, .leave)
  else match Preformatted.ofName? tag.name with
    | some element => (.closing text .markup, .keep (.verbatim (.element element)))
    | none =>
      let t := Token.plain text .markup
      (if sight.atStart then { t with offset := -sight.tabWidth } else t,
       content { tag with source := tag.source ++ text })

def read (sight : Sight) (tag : OpenTag) (lexeme : Lexeme) (text : Bytes) : Token × Move :=
  match lexeme with
  | .emptyTagEnd => (.closing text .markup, .leave)
  | .tagEnd => finish sight tag text
  | _ =>
    let (t, tag) := settle sight tag (.plain text .markup)
    (t, .keep (.tag tag))

end OpenTag
end Reindent
