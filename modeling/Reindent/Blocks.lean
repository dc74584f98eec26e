import Reindent.Text.Blank
import Reindent.Text.Quoted

/-! Additional template blocks, each with the name of the tag that ends it. -/
namespace Reindent

/-- Block names with their end tags, every name once, in the order of their first mention. -/
abbrev Blocks := List (Bytes × Bytes)

namespace Blocks

def endOf (blocks : Blocks) (name : Bytes) : Bytes := (blocks.lookup name).getD []

def isEnd (blocks : Blocks) (name : Bytes) : Bool := blocks.any (·.2 == name)

/-- A later mention of a name replaces the earlier one. -/
def insert (blocks : Blocks) (name finish : Bytes) : Blocks :=
  match blocks with
  | [] => [(name, finish)]
  | b :: rest => if b.1 == name then (name, finish) :: rest else b :: Blocks.insert rest name finish

def describe (blocks : Blocks) : Bytes :=
  Bytes.join (Bytes.ascii ",") (blocks.map fun b => b.1 ++ Bytes.ascii "=" ++ b.2)

/-- Adds a block written as `name` or `name=end`. Without an end tag, the tag is the name after
`end`. A block must have a name; the result is then none. -/
def add? (blocks : Blocks) (value : Bytes) : Option Blocks :=
  let (name, finish?) := match Bytes.cut? 61 value with
    | some (name, finish) => (Text.trim name, some finish)
    | none => (Text.trim value, none)
  if name.isEmpty then none
  else some (blocks.insert name (Text.trim (finish?.getD (Bytes.ascii "end" ++ name))))

end Blocks
end Reindent
