import Reindent.Command.Options
import Reindent.Log

/-! Runs of the command: reading the inputs, reporting, and writing the results. -/
namespace Reindent.Command

def version : Bytes := Bytes.ascii "3.0.0"

/-- Lines of text, each with its newline. -/
def text (lines : List String) : Bytes :=
  lines.flatMap fun line => Bytes.ascii line ++ [Bytes.newline]

def usage : Bytes := text
  ["djhtml - reindent Django/Jinja templates containing HTML, CSS and JavaScript",
   "",
   "Usage:",
   "  djhtml [options] [filename...]",
   "",
   "Options:",
   "  -i, --in-place          modify files in-place",
   "  -c, --check             don't modify files",
   "  -q, --quiet             be quiet",
   "  -t, --tabwidth N        tabwidth (default is 4, or [tool.djhtml] tabwidth",
   "                          from pyproject.toml)",
   "  -o, --output-file NAME  output filename (default is stdout)",
   "      --mode MODE         html, txt, css or js (default from the command name)",
   "      --extra-block TAG   extra block tag, as name or name=endname (repeatable)",
   "      --version           print the version and exit",
   "",
   "Without filenames the template is read from stdin.",
   "",
   "Exit status is the number of problematic files, or with --check the number",
   "of files that would be reindented.",
   "",
   "For more information, see https://github.com/rtts/djhtml"]

structure Outcome where
  exit : Nat
  stdout : Bytes := []
  stderr : Bytes := []
  files : Files
  deriving DecidableEq, Repr

/-- Runs that end without an outcome. -/
inductive Abort where
  | overrun
  | noInput
  deriving DecidableEq, Repr

def displayName (name : Bytes) : Bytes := if name = dash then Bytes.ascii "<stdin>" else name

def readInput (files : Files) (stdin name : Bytes) : Except FileError File :=
  if name = dash then .ok ⟨stdin, 0o644⟩ else files.read name

inductive Verdict where
  | unreadable (e : FileError)
  | rejected (e : Error)
  | formatted (perm : Nat) (result : Formatted)
  deriving DecidableEq, Repr

structure Job where
  name : Bytes
  verdict : Verdict
  deriving DecidableEq, Repr

/-- An input of a run: its name, and the limits within which it is read. -/
structure Task where
  name : Bytes
  limits? : Option Limits := none

def tasks (o : Options) (limits : Nat → Option Limits) : List Task :=
  o.files.mapIdx fun i name => ⟨name, limits i⟩

inductive Stop where
  | abort (a : Abort)
  | fatal (name : Bytes) (e : Error)
  deriving DecidableEq, Repr

/-- Only errors of the document are its own; any other error stops the run. -/
def judge (f : Formatter) (task : Task) (input : Except FileError File) : Except Stop Job :=
  let name := displayName task.name
  match input with
  | .error e => .ok ⟨name, .unreadable e⟩
  | .ok file =>
    match f.format file.content task.limits? with
    | .ok result => .ok ⟨name, .formatted file.perm result⟩
    | .error .overrun => .error (.abort .overrun)
    | .error (.error e) =>
      if e.isSyntax then .ok ⟨name, .rejected e⟩ else .error (.fatal name e)

/-- How far the work on an input has come. -/
inductive Work where
  | waiting (task : Task)
  | loaded (task : Task) (input : Except FileError File)
  | done (job : Job)
  | stopped

def Work.job? : Work → Option Job
  | .done job => some job
  | _ => none

/-- The inputs of a run while they are worked on, all at the same time, with what is left of the
standard input and the first error that stops the run. -/
structure Desk where
  stdin : Bytes
  works : List Work
  stop? : Option Stop := none

/-- Goes on with one input: it is read first and judged then. Whoever reads the standard input takes
all of it. -/
def Desk.advance (f : Formatter) (files : Files) (d : Desk) (i : Nat) : Desk :=
  match d.works[i]? with
  | some (.waiting task) =>
    { d with stdin := if task.name = dash then [] else d.stdin
             works := d.works.set i (.loaded task (readInput files d.stdin task.name)) }
  | some (.loaded task input) =>
    match judge f task input with
    | .ok job => { d with works := d.works.set i (.done job) }
    | .error stop => { d with works := d.works.set i .stopped, stop? := d.stop?.or (some stop) }
  | _ => d

def Desk.jobs (d : Desk) : Except Stop (List Job) :=
  match d.stop? with
  | some stop => .error stop
  | none => .ok (d.works.filterMap Work.job?)

/-- Processes all inputs. They take turns as a schedule says; when it is used up, those that are
left are read and then judged one after the other. -/
def process (o : Options) (files : Files) (stdin : Bytes) (schedule : List Nat := [])
    (limits : Nat → Option Limits := fun _ => none) : Except Stop (List Job) :=
  let turns := schedule ++ List.range o.files.length ++ List.range o.files.length
  let start : Desk := { stdin, works := (tasks o limits).map .waiting }
  (turns.foldl (Desk.advance o.formatter files) start).jobs

/-- Messages about problems carry the name of the command. -/
def problem (o : Options) (message : Bytes) : Bytes :=
  if o.quiet then [] else Log.entry (Bytes.ascii "djhtml: " ++ message)

def note (o : Options) (message : Bytes) : Bytes := if o.quiet then [] else Log.entry message

def cannotOpen (name : Bytes) (e : FileError) : Bytes :=
  Bytes.ascii "Error opening " ++ name ++ Bytes.ascii ": " ++ e.describe

def cannotFormat (name : Bytes) (e : Error) : Bytes :=
  Bytes.ascii "Syntax error in " ++ name ++ Bytes.ascii ": " ++ e.message

def cannotWrite (name : Bytes) (e : FileError) : Bytes :=
  Bytes.ascii "Error writing " ++ name ++ Bytes.ascii ": " ++ e.describe

def debug (o : Options) (files : Files) (stdin name : Bytes) (limits? : Option Limits := none) :
    Except Abort Outcome :=
  match readInput files stdin name with
  | .error e => .ok { exit := 1, stderr := problem o (cannotOpen name e), files }
  | .ok file =>
    match o.formatter.debug file.content limits? with
    | .ok dump => .ok { exit := 0, stdout := dump ++ [Bytes.newline], files }
    | .error .overrun => .error .overrun
    | .error (.error e) => .ok { exit := 1, stderr := problem o (cannotFormat name e), files }

/-- The result of the only input, on the standard output. -/
def print (o : Options) (files : Files) (job : Job) : Outcome :=
  match job.verdict with
  | .unreadable e => { exit := 1, stderr := problem o (cannotOpen job.name e), files }
  | .rejected e => { exit := 1, stderr := problem o (cannotFormat job.name e), files }
  | .formatted _ result => { exit := 0, stdout := if o.quiet then [] else result.content, files }

/-- Counts and messages while results are written. -/
structure Tally where
  files : Files
  changed : Nat := 0
  unchanged : Nat := 0
  problematic : Nat := 0
  stderr : Bytes := []
  deriving DecidableEq, Repr

/-- A file without permissions is written with the usual ones. -/
def writePerm (perm : Nat) : Nat := if perm = 0 then 0o644 else perm

def Tally.fail (o : Options) (t : Tally) (message : Bytes) : Tally :=
  { t with problematic := t.problematic + 1, stderr := t.stderr ++ problem o message }

/-- Reports one input, and writes its result if it changed and files may be modified. -/
def Tally.add (o : Options) (t : Tally) (job : Job) : Tally :=
  match job.verdict with
  | .unreadable e => t.fail o (cannotOpen job.name e)
  | .rejected e => t.fail o (cannotFormat job.name e)
  | .formatted perm result =>
    if !result.changed then { t with unchanged := t.unchanged + 1 }
    else if o.check then { t with changed := t.changed + 1 }
    else
      let target := if o.inPlace then job.name else o.output
      match t.files.write target result.content (writePerm perm) with
      | .error e => t.fail o (cannotWrite target e)
      | .ok files =>
        { t with files, changed := t.changed + 1
                 stderr := t.stderr ++ note o (Bytes.ascii "reindented " ++ target) }

def plural (n : Nat) : Bytes := if n = 1 then [] else Bytes.ascii "s"

def templates (n : Nat) : Bytes := Decimal.natural n ++ Bytes.ascii " template" ++ plural n

def summary (o : Options) (t : Tally) : Bytes :=
  let verb := if o.check then Bytes.ascii " would have been reindented."
    else if t.changed = 1 then Bytes.ascii " has been reindented."
    else Bytes.ascii " have been reindented."
  let were := if t.unchanged = 1 then Bytes.ascii " was" else Bytes.ascii " were"
  note o (templates t.changed ++ verb) ++
  (if t.unchanged = 0 then []
   else note o (templates t.unchanged ++ were ++ Bytes.ascii " already perfect!")) ++
  (if t.problematic = 0 then []
   else note o (templates t.problematic ++
     Bytes.ascii " could not be processed due to an error."))

def fatalMessage (name : Bytes) (e : Error) : Bytes :=
  Bytes.ascii "\nFatal error while processing " ++ name ++ text
    ["",
     "",
     "    If you have time and are using the latest version, we",
     "    would very much appreciate if you opened an issue on",
     "    https://github.com/rtts/djhtml/issues"] ++
  e.message ++ [Bytes.newline]

/-- Results go to the standard output unless files are to be modified. -/
def Options.toStdout (o : Options) : Bool := !o.inPlace && !o.check && o.output == dash

/-- Carries out options. If no files were named and the standard input is a terminal, help is shown
instead of waiting for input. Nothing is written before all inputs are processed. -/
def execute (o : Options) (files : Files) (stdin : Bytes) (terminal : Bool)
    (schedule : List Nat := []) (limits : Nat → Option Limits := fun _ => none) :
    Except Abort Outcome :=
  if o.stdinDefault && terminal then .ok { exit := 1, stderr := usage, files }
  else if o.debug then
    match o.files with
    | [] => .error .noInput
    | name :: _ => debug o files stdin name (limits 0)
  else match process o files stdin schedule limits with
    | .error (.abort a) => .error a
    | .error (.fatal name e) => .ok { exit := 1, stderr := fatalMessage name e, files }
    | .ok jobs =>
      if o.toStdout then
        match jobs with
        | [] => .error .noInput
        | job :: _ => .ok (print o files job)
      else
        let t := jobs.foldl (Tally.add o) { files }
        .ok { exit := if o.check then t.changed else t.problematic
              stderr := t.stderr ++ summary o t, files := t.files }

def rejection (e : ArgumentError) : Bytes :=
  Bytes.ascii "djhtml: " ++ e.message ++ Bytes.ascii "\n\nRun djhtml -h for usage.\n"

/-- What a run takes from outside of the program: how the content of a project file is decoded, and
the limits on the tests of tags in each of its inputs. -/
structure Libraries where
  decode : Bytes → Option (Option Int64) := Project.tabWidth?
  limits : Nat → Option Limits := fun _ => none

def run (program : Bytes) (args : List Bytes) (files : Files) (stdin : Bytes) (terminal : Bool)
    (schedule : List Nat := []) (libraries : Libraries := {}) : Except Abort Outcome :=
  match Options.parseWith libraries.decode program args files with
  | .error e => .ok { exit := 1, stderr := rejection e, files }
  | .ok none => .ok { exit := 0, stderr := usage, files }
  | .ok (some o) =>
    if o.version then
      .ok { exit := 0, stdout := Bytes.ascii "djhtml " ++ version ++ [Bytes.newline], files }
    else execute o files stdin terminal schedule libraries.limits

/-- Whether a run reads the standard input. -/
def readsStdin (program : Bytes) (args : List Bytes) (files : Files) (terminal : Bool) : Bool :=
  match Options.parse program args files with
  | .ok (some o) => o.files.contains dash && !(o.stdinDefault && terminal)
  | _ => false

/-- The names that a run may read or write. -/
def namesIn (args : List Bytes) : List Bytes :=
  match Flags.parse {} args with
  | .ok (flags, rest) => flags.output :: rest
  | .error _ => []

end Reindent.Command
