import Reindent.Files
import Reindent.Text.Caseless
import Reindent.Toml.Document

/-! The tab width that a project sets for its templates. -/
namespace Reindent.Project

def fileName : Bytes := Bytes.ascii "pyproject.toml"

/-- The values of a name in a table; the case of its letters does not matter. -/
def field (tables : Toml.Tables) (name : String) (id : Toml.TableId) : List Toml.Node :=
  ((tables.entries id).filter fun e => Text.spells (Bytes.ascii name) e.1).map (·.2)

def asTable? : Toml.Node → Option Toml.TableId
  | .table id => some id
  | _ => none

def asInteger? : Toml.Node → Option Int64
  | .integer n => some n
  | _ => none

/-- The tab width that a project file sets, if it is a file with the right types. -/
def tabWidth? (source : Bytes) : Option (Option Int64) := do
  let tables ← Toml.parse? source
  let tools ← (field tables "tool" Toml.Tables.top).mapM asTable?
  let sections ← (tools.flatMap (field tables "djhtml")).mapM asTable?
  let widths ← (sections.flatMap (field tables "tabwidth")).mapM asInteger?
  some widths.getLast?

structure ProjectError where
  path : Bytes
  deriving DecidableEq, Repr

def ProjectError.describe (e : ProjectError) : Bytes :=
  Bytes.ascii "reading " ++ e.path ++ Bytes.ascii ": not a valid project file"

def ancestors (dir : Path) : List Path :=
  (List.range (dir.length + 1)).reverse.map dir.take

/-- The name of the nearest project file, from a directory upwards. Anything of that name counts.
The search is over at a directory that holds itself. -/
def nearest? (files : Files) (dir : Bytes) : Option Bytes :=
  if (files.at? (Directory.join dir fileName)).isSome then some (Directory.join dir fileName)
  else if Directory.parent dir = dir then none
  else nearest? files (Directory.parent dir)
termination_by Directory.height dir
decreasing_by exact Directory.height_parent_lt ‹_›

/-- The tab width that a project file with the given name sets. `decode` tells it from the content
of a file, unless the content has errors. -/
def widthIn (decode : Bytes → Option (Option Int64)) (name : Bytes) :
    Option Entry → Except ProjectError (Option Int64)
  | some (.file f) =>
    match decode f.content with
    | some width => .ok width
    | none => .error ⟨name⟩
  | _ => .error ⟨name⟩

/-- The tab width that holds in the working directory. Only the nearest project file is read. -/
def tabWidthWith (decode : Bytes → Option (Option Int64)) (files : Files) :
    Except ProjectError (Option Int64) :=
  match nearest? files files.workingName with
  | none => .ok none
  | some name => widthIn decode name (files.at? name)

def tabWidth (files : Files) : Except ProjectError (Option Int64) :=
  tabWidthWith tabWidth? files

end Reindent.Project
