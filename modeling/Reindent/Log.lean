import Reindent.Text.Bytes

/-! Log entries. -/
namespace Reindent.Log

/-- An entry ends with a newline. -/
def entry (message : Bytes) : Bytes :=
  if message.getLast? = some Bytes.newline then message else message ++ [Bytes.newline]

def text (entries : List Bytes) : Bytes := entries.flatMap entry

end Reindent.Log
