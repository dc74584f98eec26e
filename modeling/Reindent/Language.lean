import Reindent.Error
import Reindent.ModeStack
import Reindent.Text.Caseless

/-! The languages a document can be written in. -/
namespace Reindent

inductive Language where
  | html
  | text
  | css
  | javaScript
  deriving DecidableEq, Repr

namespace Language

def all : List Language := [.html, .text, .css, .javaScript]

def name : Language → Bytes
  | .html => Bytes.ascii "html"
  | .text => Bytes.ascii "txt"
  | .css => Bytes.ascii "css"
  | .javaScript => Bytes.ascii "js"

def code : Language → Int64
  | .html => 0
  | .text => 1
  | .css => 2
  | .javaScript => 3

def ofCode? (code : Int64) : Option Language := all.find? (·.code == code)

/-- The name of a numbered language; a number without a language stands for itself. -/
def nameOfCode (code : Int64) : Bytes :=
  match ofCode? code with
  | some language => language.name
  | none => Bytes.ascii "Language(" ++ Decimal.integer code ++ Bytes.ascii ")"

def ofName (name : Bytes) : Except Error Language :=
  match all.find? (fun language => Text.spells language.name name) with
  | some language => .ok language
  | none => .error (.unknownLanguage name)

def start : Language → ModeStack
  | .html => { active := .markup }
  | .text => { active := .text }
  | .css => { active := .style {} }
  | .javaScript => { active := .script {} }

end Language
end Reindent
