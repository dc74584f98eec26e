import Reindent.Blocks
import Reindent.Text.Numeral

/-! Flags of a command line. -/
namespace Reindent.Command

/-- What a flag takes: nothing, or a value of some type. -/
inductive FlagKind where
  | boolean
  | integer
  | string
  | block
  deriving DecidableEq, Repr

/-- The settings that flags change. Most have a short and a long name. -/
inductive Setting where
  | inPlace
  | check
  | quiet
  | debug
  | version
  | tabWidth
  | output
  | mode
  | extraBlock
  deriving DecidableEq, Repr

namespace Setting

def kind : Setting → FlagKind
  | .tabWidth => .integer
  | .output | .mode => .string
  | .extraBlock => .block
  | _ => .boolean

def names : Setting → List Bytes
  | .inPlace => [Bytes.ascii "i", Bytes.ascii "in-place"]
  | .check => [Bytes.ascii "c", Bytes.ascii "check"]
  | .quiet => [Bytes.ascii "q", Bytes.ascii "quiet"]
  | .debug => [Bytes.ascii "d", Bytes.ascii "debug"]
  | .version => [Bytes.ascii "version"]
  | .tabWidth => [Bytes.ascii "t", Bytes.ascii "tabwidth"]
  | .output => [Bytes.ascii "o", Bytes.ascii "output-file"]
  | .mode => [Bytes.ascii "mode"]
  | .extraBlock => [Bytes.ascii "extra-block"]

def all : List Setting :=
  [.inPlace, .check, .quiet, .debug, .version, .tabWidth, .output, .mode, .extraBlock]

def ofName? (name : Bytes) : Option Setting := all.find? (·.names.contains name)

end Setting

structure Flags where
  inPlace : Bool := false
  check : Bool := false
  quiet : Bool := false
  debug : Bool := false
  version : Bool := false
  tabWidth? : Option Int64 := none
  output : Bytes := Bytes.ascii "-"
  mode : Bytes := []
  extra : Blocks := []
  deriving DecidableEq, Repr

inductive FlagError where
  | badForm (arg : Bytes)
  | unknown (name : Bytes)
  | noValue (name : Bytes)
  | badBoolean (value name : Bytes)
  | badInteger (value name : Bytes) (fault : Numeral.Fault)
  | badBlock (value name : Bytes)
  | help
  deriving DecidableEq, Repr

def boolean? (value : Bytes) : Option Bool :=
  if (["1", "t", "T", "true", "TRUE", "True"].map Bytes.ascii).contains value then some true
  else if (["0", "f", "F", "false", "FALSE", "False"].map Bytes.ascii).contains value then
    some false
  else none

namespace Flags

def setBoolean (f : Flags) (setting : Setting) (value : Bool) : Flags :=
  match setting with
  | .inPlace => { f with inPlace := value }
  | .check => { f with check := value }
  | .quiet => { f with quiet := value }
  | .debug => { f with debug := value }
  | .version => { f with version := value }
  | _ => f

def set (f : Flags) (setting : Setting) (name value : Bytes) : Except FlagError Flags :=
  match setting.kind with
  | .boolean =>
    match boolean? value with
    | some b => .ok (f.setBoolean setting b)
    | none => .error (.badBoolean value name)
  | .integer =>
    match Numeral.integer value with
    | .ok n => .ok { f with tabWidth? := some n }
    | .error fault => .error (.badInteger value name fault)
  | .string =>
    .ok (if setting = .output then { f with output := value } else { f with mode := value })
  | .block =>
    match f.extra.add? value with
    | some extra => .ok { f with extra }
    | none => .error (.badBlock value name)

/-- A flag split into its name and the value behind an equals sign. -/
def splitValue (s : Bytes) : Bytes × Option Bytes :=
  match Bytes.cut? 61 s with
  | some (name, value) => (name, some value)
  | none => (s, none)

/-- The text of a flag after its dashes; arguments that are no flags have none. -/
def text? (arg : Bytes) : Option Bytes :=
  match arg with
  | [45, 45] => none
  | 45 :: 45 :: rest => some rest
  | 45 :: b :: rest => some (b :: rest)
  | _ => none

/-- Reads flags up to the first argument that is none, or behind two dashes that stand alone. A flag
without dash or equals sign at its start may take its value from the next argument. -/
def parse (f : Flags) : List Bytes → Except FlagError (Flags × List Bytes)
  | [] => .ok (f, [])
  | arg :: rest =>
    if arg = [45, 45] then .ok (f, rest)
    else match text? arg with
      | none => .ok (f, arg :: rest)
      | some text =>
        if text.isEmpty || text.head? == some 45 || text.head? == some 61 then
          .error (.badForm arg)
        else
          let (name, value?) := splitValue text
          match Setting.ofName? name with
          | none =>
            if name == Bytes.ascii "help" || name == Bytes.ascii "h" then .error .help
            else .error (.unknown name)
          | some setting =>
            match value?, setting.kind with
            | some value, _ => do
              let f ← f.set setting name value
              parse f rest
            | none, .boolean => parse (f.setBoolean setting true) rest
            | none, _ =>
              match rest with
              | [] => .error (.noValue name)
              | value :: rest => do
                let f ← f.set setting name value
                parse f rest

end Flags
end Reindent.Command
