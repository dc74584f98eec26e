import Reindent.Command.Run

/-! The command itself: the files that a run may touch are read first, and written afterwards. -/
namespace Reindent.Main

def bytesOf (s : String) : Bytes := s.toUTF8.toList

def stringOf (s : Bytes) : String := (String.fromUTF8? ⟨s.toArray⟩).getD ""

def lookUp (path : Path) : IO (Option Entry) := do
  let full := (← IO.currentDir) / ("/" ++ stringOf (Bytes.join (Bytes.ascii "/") path))
  if ← full.isDir then return some .directory
  if ← full.pathExists then
    try
      let content ← IO.FS.readBinFile full
      return some (.file ⟨content.toList, 0o644⟩)
    catch _ => return none
  return none

def load (files : Files) (path : Path) : IO Files := do
  if path.isEmpty then return files
  match ← lookUp path with
  | some entry => return files.create path entry
  | none => return files

def stages (cwd : Path) (name : Bytes) : List Path :=
  let full := if name.head? = some 47 then name
    else Bytes.join (Bytes.ascii "/") (cwd ++ [name])
  let parts := Bytes.splitOn 47 full
  (List.range parts.length).map fun n =>
    Files.pathOf (Bytes.join (Bytes.ascii "/") (parts.take (n + 1)))

/-- The part of the real tree that a run with these arguments may see. -/
def snapshot (args : List Bytes) : IO Files := do
  let cwd := Files.pathOf (bytesOf (← IO.currentDir).toString)
  let projects := (Project.ancestors cwd).map (· ++ [Project.fileName])
  let named := (Command.namesIn args).flatMap (stages cwd)
  (projects ++ Project.ancestors cwd ++ named).foldlM load { cwd }

def store (before after : Files) : IO Unit := do
  for (path, file) in after.list do
    unless before.get? path = some (.file file) do
      IO.FS.writeBinFile ("/" ++ stringOf (Bytes.join (Bytes.ascii "/") path))
        ⟨file.content.toArray⟩

def readAll (stream : IO.FS.Stream) : IO Bytes := do
  let mut all := ByteArray.empty
  let mut chunk ← stream.read 65536
  while chunk.size > 0 do
    all := all ++ chunk
    chunk ← stream.read 65536
  return all.toList

def run (args : List String) : IO UInt32 := do
  let program := bytesOf (← IO.appPath).toString
  let args := args.map bytesOf
  let files ← snapshot args
  let input ← IO.getStdin
  let terminal ← input.isTty
  let stdin ← if Command.readsStdin program args files terminal then readAll input else pure []
  match Command.run program args files stdin terminal with
  | .error _ =>
    (← IO.getStderr).putStrLn "djhtml: the input went out of range"
    return 2
  | .ok outcome =>
    store files outcome.files
    (← IO.getStdout).write ⟨outcome.stdout.toArray⟩
    (← IO.getStderr).write ⟨outcome.stderr.toArray⟩
    return outcome.exit.toUInt32

end Reindent.Main

def main (args : List String) : IO UInt32 := Reindent.Main.run args
