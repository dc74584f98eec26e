import Reindent.Command.Flag
import Reindent.Formatter
import Reindent.Project

/-! Options: what a command line asks for. -/
namespace Reindent.Command

structure Options where
  inPlace : Bool := false
  check : Bool := false
  quiet : Bool := false
  debug : Bool := false
  version : Bool := false
  tabWidth : Int64 := 4
  output : Bytes := []
  language : Language := .html
  extra : Blocks := []
  files : List Bytes := []
  /-- No files were named. -/
  stdinDefault : Bool := false
  deriving DecidableEq, Repr

/-- The name of the standard streams. -/
def dash : Bytes := Bytes.ascii "-"

inductive ArgumentError where
  | flag (e : FlagError)
  | project (e : Project.ProjectError)
  | tabWidth (n : Int64)
  | language (e : Error)
  | stdinInPlace
  | manyFiles
  deriving DecidableEq, Repr

def faultReason : Numeral.Fault → Bytes
  | .malformed => Bytes.ascii "parse error"
  | .outOfRange => Bytes.ascii "value out of range"

namespace FlagError

def invalid (value name reason : Bytes) : Bytes :=
  Bytes.ascii "invalid value " ++ Text.quote value ++ Bytes.ascii " for flag -" ++ name ++
    Bytes.ascii ": " ++ reason

def message : FlagError → Bytes
  | .badForm arg => Bytes.ascii "bad flag syntax: " ++ arg
  | .unknown name => Bytes.ascii "flag provided but not defined: -" ++ name
  | .noValue name => Bytes.ascii "flag needs an argument: -" ++ name
  | .badBoolean value name =>
    Bytes.ascii "invalid boolean value " ++ Text.quote value ++ Bytes.ascii " for -" ++ name ++
      Bytes.ascii ": parse error"
  | .badInteger value name fault => invalid value name (faultReason fault)
  | .badBlock value name => invalid value name (Error.emptyBlockName value).message
  | .help => Bytes.ascii "flag: help requested"

end FlagError

def ArgumentError.message : ArgumentError → Bytes
  | .flag e => e.message
  | .project e => e.describe
  | .tabWidth n => Bytes.ascii "invalid tabwidth " ++ Decimal.integer n
  | .language e => e.message
  | .stdinInPlace => Bytes.ascii "cannot modify stdin in-place"
  | .manyFiles => Bytes.ascii "will not modify files in-place without -i option"

def baseName (name : Bytes) : Bytes :=
  if name.isEmpty then Bytes.ascii "."
  else
    let reversed := name.reverse.dropWhile (· == 47)
    if reversed.isEmpty then Bytes.ascii "/" else (reversed.takeWhile (· != 47)).reverse

def dropEnd (finish s : Bytes) : Bytes :=
  if finish.isSuffixOf s then s.take (s.length - finish.length) else s

def languageFor (program : Bytes) : Language :=
  let name := dropEnd (Bytes.ascii ".exe") (baseName program)
  if (Bytes.ascii "djtxt").isSuffixOf name then .text
  else if (Bytes.ascii "djcss").isSuffixOf name then .css
  else if (Bytes.ascii "djjs").isSuffixOf name then .javaScript
  else .html

namespace Options

def formatter (o : Options) : Formatter :=
  { tabWidth := o.tabWidth, blocks := o.extra, language := o.language }

def checkTabWidth (width : Int64) : Except ArgumentError Int64 :=
  if width < 0 then .error (.tabWidth width) else .ok width

/-- The tab width: a flag counts first, then the project, then the default. -/
def tabWidthWith (decode : Bytes → Option (Option Int64)) (flags : Flags) (files : Files) :
    Except ArgumentError Int64 :=
  match flags.tabWidth? with
  | some n => checkTabWidth n
  | none => do
    let width? ← (Project.tabWidthWith decode files).mapError .project
    checkTabWidth (width?.getD 4)

/-- The language: a flag counts first, then the name of the program. -/
def languageOf (program : Bytes) (flags : Flags) : Except ArgumentError Language :=
  if flags.mode.isEmpty then .ok (languageFor program)
  else (Language.ofName flags.mode).mapError .language

def inputsOf (args : List Bytes) : List Bytes := if args.isEmpty then [dash] else args

/-- The standard input is not modified in place, and several inputs are never put together. -/
def checkInputs (flags : Flags) (inputs : List Bytes) : Except ArgumentError Unit :=
  if flags.inPlace && inputs.contains dash then .error .stdinInPlace
  else if 1 < inputs.length && !flags.inPlace && !flags.check then .error .manyFiles
  else .ok ()

/-- The options that flags and arguments stand for; nothing more is looked at if the version is
asked for. -/
def resolveWith (decode : Bytes → Option (Option Int64)) (program : Bytes) (flags : Flags)
    (args : List Bytes) (files : Files) : Except ArgumentError Options :=
  let o : Options :=
    { inPlace := flags.inPlace, check := flags.check, quiet := flags.quiet, debug := flags.debug
      version := flags.version, output := flags.output, extra := flags.extra
      tabWidth := flags.tabWidth?.getD 4 }
  if o.version then .ok o
  else do
    let tabWidth ← tabWidthWith decode flags files
    let language ← languageOf program flags
    checkInputs flags (inputsOf args)
    .ok { o with tabWidth, language, files := inputsOf args, stdinDefault := args.isEmpty }

/-- The options of a command line, or none if help is asked for. The tab width that a project file
sets is the one that `decode` reads from its content. -/
def parseWith (decode : Bytes → Option (Option Int64)) (program : Bytes) (args : List Bytes)
    (files : Files) : Except ArgumentError (Option Options) :=
  match Flags.parse {} args with
  | .error .help => .ok none
  | .error e => .error (.flag e)
  | .ok (flags, rest) => (resolveWith decode program flags rest files).map some

def parse (program : Bytes) (args : List Bytes) (files : Files) :
    Except ArgumentError (Option Options) :=
  parseWith Project.tabWidth? program args files

end Options
end Reindent.Command
