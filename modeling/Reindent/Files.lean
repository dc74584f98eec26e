import Reindent.Directory

/-! A tree of files, with the rules by which names find files in it. -/
namespace Reindent

/-- The names from the top of the tree down to an entry. -/
abbrev Path := List Bytes

structure File where
  content : Bytes
  perm : Nat
  deriving DecidableEq, Repr

inductive Entry where
  | file (f : File)
  | directory
  deriving DecidableEq, Repr

inductive FileFault where
  | missing
  | notDirectory
  | isDirectory
  | invalid
  | nameTooLong
  deriving DecidableEq, Repr

def FileFault.describe : FileFault → Bytes
  | .missing => Bytes.ascii "no such file or directory"
  | .notDirectory => Bytes.ascii "not a directory"
  | .isDirectory => Bytes.ascii "is a directory"
  | .invalid => Bytes.ascii "invalid argument"
  | .nameTooLong => Bytes.ascii "file name too long"

structure FileError where
  operation : Bytes
  name : Bytes
  fault : FileFault
  deriving DecidableEq, Repr

def FileError.describe (e : FileError) : Bytes :=
  e.operation ++ Bytes.ascii " " ++ e.name ++ Bytes.ascii ": " ++ e.fault.describe

/-- The entries below the top, with a working directory. A tree may hang in a larger one, at the
place called `base`; nothing is known of the larger tree but its directories above `base`. -/
structure Files where
  entries : List (Path × Entry) := []
  cwd : Path := []
  base : Bytes := []
  deriving DecidableEq, Repr

/-- A place that a name leads to: in the tree, or above it. -/
inductive Place where
  | inside (path : Path)
  | above
  deriving DecidableEq, Repr

namespace Files

/-- The top of the tree is always a directory. -/
def get? (files : Files) (path : Path) : Option Entry :=
  if path.isEmpty then some .directory else files.entries.lookup path

/-- Every path has one entry at most. -/
def replace (path : Path) (entry : Entry) : List (Path × Entry) → List (Path × Entry)
  | [] => [(path, entry)]
  | e :: rest => if e.1 = path then (path, entry) :: rest else e :: replace path entry rest

def set (files : Files) (path : Path) (entry : Entry) : Files :=
  { files with entries := replace path entry files.entries }

/-- Makes the directories that are missing on the way to a path. -/
def withParents (files : Files) (path : Path) : Files :=
  (List.range path.length).foldl (fun files n =>
    let parent := path.take n
    if (files.get? parent).isSome then files else files.set parent .directory) files

def create (files : Files) (path : Path) (entry : Entry) : Files :=
  (files.withParents path).set path entry

/-- The names between the slashes, without those that lead nowhere else. -/
def pathOf (name : Bytes) : Path :=
  (Bytes.splitOn 47 name).foldl (fun path part =>
    if part.isEmpty || part == Bytes.ascii "." then path
    else if part == Bytes.ascii ".." then path.dropLast
    else path ++ [part]) []

def absolute (files : Files) (path : Path) : Bytes :=
  files.base ++ Bytes.ascii "/" ++ Bytes.join (Bytes.ascii "/") path

def workingName (files : Files) : Bytes := Directory.clean (files.absolute files.cwd)

/-- The entry with a full name. Only names below the top of the tree have entries. -/
def at? (files : Files) (name : Bytes) : Option Entry :=
  (Bytes.after? (files.base ++ [47]) name).bind fun inner => files.get? (pathOf inner)

def entryAt? (files : Files) : Place → Option Entry
  | .inside path => files.get? path
  | .above => some .directory

def parent (files : Files) : Place → Place
  | .inside path =>
    if path.isEmpty then (if files.base.isEmpty then .inside [] else .above)
    else .inside path.dropLast
  | .above => .above

def follow (files : Files) (place : Place) (part : Bytes) : Except FileFault (Option Place) :=
  match files.entryAt? place with
  | none => .error .missing
  | some (.file _) => .error .notDirectory
  | some .directory =>
    if part.isEmpty || part == Bytes.ascii "." then .ok (some place)
    else if part == Bytes.ascii ".." then .ok (some (files.parent place))
    else if 255 < part.length then .error .nameTooLong
    else match place with
      | .inside path => .ok (some (.inside (path ++ [part])))
      | .above => .ok none

/-- Follows the parts of a name. A place outside of the tree has no entries. -/
def walk (files : Files) : Option Place → List Bytes → Except FileFault (Option Place)
  | place?, [] => .ok place?
  | none, _ :: _ => .error .missing
  | some place, part :: rest => do
    let next? ← files.follow place part
    files.walk next? rest

def start (files : Files) (name : Bytes) : Place × List Bytes :=
  match name with
  | 47 :: rest => (if files.base.isEmpty then .inside [] else .above, Bytes.splitOn 47 rest)
  | _ => (.inside files.cwd, Bytes.splitOn 47 name)

def checkName (name : Bytes) : Except FileFault Unit :=
  if name.contains 0 then .error .invalid
  else if name.isEmpty then .error .missing
  else if 4096 ≤ name.length then .error .nameTooLong
  else .ok ()

def find (files : Files) (name : Bytes) : Except FileFault (Place × Entry) := do
  checkName name
  let (place, parts) := files.start name
  let place? ← files.walk (some place) parts
  match place? with
  | none => .error .missing
  | some place =>
    match files.entryAt? place with
    | none => .error .missing
    | some entry => .ok (place, entry)

/-- The file with a name. Its name is looked up first and its content read then. -/
def read (files : Files) (name : Bytes) : Except FileError File :=
  match files.find name with
  | .error fault => .error { operation := Bytes.ascii "stat", name, fault }
  | .ok (_, .directory) => .error { operation := Bytes.ascii "read", name, fault := .isDirectory }
  | .ok (_, .file f) => .ok f

/-- The path at which a file of that name is written. A name that ends with a slash, or leads to a
directory, names no file. -/
def target (files : Files) (name : Bytes) : Except FileFault Path := do
  checkName name
  let (place, parts) := files.start name
  if (parts.getLast?.getD []).isEmpty then
    -- What stands in front of the last part must be a directory all the same.
    let named := (parts.reverse.dropWhile (·.isEmpty)).reverse
    let _ ← files.walk (some place) (named.dropLast ++ [[]])
    .error .isDirectory
  else
    let place? ← files.walk (some place) parts
    match place? with
    | none => .error .missing
    | some .above => .error .isDirectory
    | some (.inside path) =>
      match files.get? path with
      | some .directory => .error .isDirectory
      | _ => .ok path

/-- Permissions of new files never include writing for group and others. -/
def mask (perm : Nat) : Nat := perm &&& 0o755

/-- Writes a file. An existing file keeps its permissions. -/
def write (files : Files) (name content : Bytes) (perm : Nat) : Except FileError Files :=
  match files.target name with
  | .error fault => .error { operation := Bytes.ascii "open", name, fault }
  | .ok path =>
    match files.get? path with
    | some (.file f) => .ok (files.set path (.file { f with content }))
    | _ => .ok (files.set path (.file { content, perm := mask perm }))

/-- Directory order: by the names on the way, byte by byte. -/
def pathBefore : Path → Path → Bool
  | [], [] => false
  | [], _ :: _ => true
  | _ :: _, [] => false
  | a :: as, b :: bs => Bytes.before a b || (a == b && pathBefore as bs)

/-- All files in directory order. -/
def list (files : Files) : List (Path × File) :=
  (files.entries.filterMap fun
    | (path, .file f) => some (path, f)
    | _ => none).mergeSort fun a b => !pathBefore b.1 a.1

end Files
end Reindent
