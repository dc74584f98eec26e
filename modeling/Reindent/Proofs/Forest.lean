import Reindent.Markup
import Reindent.Template

/-! Documents as trees: elements and template blocks around lines of text. -/
namespace Reindent
open Bytes

/-- A line of text that looks like no markup and no template syntax. -/
structure TextLine where
  bytes : Bytes
  nonempty : bytes ≠ []
  trimmed : Text.trim bytes = bytes
  plain : newline ∉ bytes ∧ 60 ∉ bytes ∧ 123 ∉ bytes

/-- The name of an element without content, in any mixture of cases. -/
structure VoidName where
  bytes : Bytes
  void : bytes.map toLower ∈ Markup.voidElements

/-- Names of elements whose content is not markup. -/
def foreignElements : List Bytes := ["pre", "textarea", "style", "script"].map ascii

/-- The name of an element with content. -/
structure ElementName where
  first : UInt8
  others : Bytes
  letter : isLetter first = true
  alphanumeric : ∀ b ∈ others, isLetter b = true ∨ isDigit b = true
  ordinary : (first :: others).map toLower ∉ Markup.voidElements ++ foreignElements

/-- Tags that open a block only if their own text says so. -/
def ambiguousTags : List Bytes := ["set", "placeholder", "video"].map ascii

def rawTags : List Bytes := [RawBlock.comment, .verbatim, .raw].map RawBlock.name

structure BlockName where
  bytes : Bytes
  nonempty : bytes ≠ []
  word : ∀ b ∈ bytes, isWord b = true
  opening : ¬ ascii "end" <+: bytes
  ordinary : bytes ∉ Template.branches ++ rawTags ++ ambiguousTags

theorem isWord_else : ∀ b ∈ ascii "else", isWord b = true :=
  List.all_eq_true.1 (by decide)

theorem BlockName.word_end (name : BlockName) :
    ∀ b ∈ ascii "end" ++ name.bytes, isWord b = true := by
  have hend : ∀ b ∈ ascii "end", isWord b = true := List.all_eq_true.1 (by decide)
  intro b hb
  rcases List.mem_append.1 hb with hb | hb
  · exact hend b hb
  · exact name.word b hb

def ElementName.bytes (name : ElementName) : Bytes := name.first :: name.others

theorem ElementName.alphanumeric_bytes (name : ElementName) :
    ∀ b ∈ name.bytes, isLetter b = true ∨ isDigit b = true := by
  intro b hb
  rcases List.mem_cons.1 hb with rfl | hb
  · exact Or.inl name.letter
  · exact name.alphanumeric b hb

mutual

/-- Nodes side by side; every constructor but the first puts a node in front of the others. -/
inductive Forest where
  | nil
  | text (line : TextLine) (others : Forest)
  | void (name : VoidName) (others : Forest)
  | element (name : ElementName) (content others : Forest)
  | block (name : BlockName) (content : Forest) (branches : Branches) (others : Forest)

/-- The further branches of a block. -/
inductive Branches where
  | nil
  | cons (content : Forest) (others : Branches)

end

inductive Item where
  | text (line : TextLine)
  | void (name : VoidName)
  | openElement (name : ElementName)
  | closeElement (name : ElementName)
  | openBlock (name : BlockName)
  | branch
  | closeBlock (name : BlockName)

namespace Item

def tag (word : Bytes) : Bytes := ascii "\x7b% " ++ word ++ ascii " %\x7d"

def bytes : Item → Bytes
  | text line => line.bytes
  | void name => ascii "<" ++ name.bytes ++ ascii ">"
  | openElement name => ascii "<" ++ name.bytes ++ ascii ">"
  | closeElement name => ascii "</" ++ name.bytes ++ ascii ">"
  | openBlock name => tag name.bytes
  | branch => tag (ascii "else")
  | closeBlock name => tag (ascii "end" ++ name.bytes)

end Item

/-- An item and the number of elements and blocks around it. -/
structure Row where
  depth : Nat
  item : Item

mutual

/-- The items of a forest from top to bottom, inside `depth` other elements and blocks. -/
def Forest.rows (depth : Nat) : Forest → List Row
  | .nil => []
  | .text line others => ⟨depth, .text line⟩ :: others.rows depth
  | .void name others => ⟨depth, .void name⟩ :: others.rows depth
  | .element name content others =>
    ⟨depth, .openElement name⟩ :: content.rows (depth + 1) ++
      ⟨depth, .closeElement name⟩ :: others.rows depth
  | .block name content branches others =>
    ⟨depth, .openBlock name⟩ :: content.rows (depth + 1) ++ branches.rows depth ++
      ⟨depth, .closeBlock name⟩ :: others.rows depth

def Branches.rows (depth : Nat) : Branches → List Row
  | .nil => []
  | .cons content others =>
    ⟨depth, .branch⟩ :: content.rows (depth + 1) ++ others.rows depth

end

end Reindent
