import Reindent.Toml.Tables

/-! The tables of a TOML document, put together from its statements. -/
namespace Reindent.Toml

/-- A document in the making. `context` leads to the current table, `implied` are the tables that
were only mentioned on the way to others, and may still be defined once, and `arrays` are the names
that hold an array. -/
structure Draft where
  tables : Tables := #[[]]
  context : Key := []
  implied : List Key := []
  arrays : List Key := []

namespace Draft

def imply (d : Draft) (path : Key) : Draft := { d with implied := path :: d.implied }

def settle (d : Draft) (path : Key) : Draft :=
  { d with implied := d.implied.filter (· != path) }

/-- Notes whether a name of the current table holds an array. What is noted of an empty name counts
for the current table itself. -/
def note (d : Draft) (name : Bytes) (isArray : Bool) : Draft :=
  let path := if name.isEmpty && !d.context.isEmpty then d.context else d.context ++ [name]
  let others := d.arrays.filter (· != path)
  { d with arrays := if isArray then path :: others else others }

/-- Defines a name in the current table. A name is defined only once, unless it holds an array or
was implied; an implied table stays. -/
def define (d : Draft) (name : Bytes) (value : Node) : Option Draft := do
  let id ← d.tables.find? Tables.top d.context
  let path := d.context ++ [name]
  let replaced := { d with tables := d.tables.put id name value }
  if (d.tables.get? id name).isNone then some replaced
  else if d.arrays.contains path then some (replaced.settle path)
  else if d.implied.contains path then some (d.settle path)
  else none

/-- Goes down from a table to another one. Tables that are missing on the way are made and implied;
`above` is the path to the first one. -/
def descend (d : Draft) (id : TableId) (above : Key) : Key → Option (TableId × Draft)
  | [] => some (id, d)
  | name :: path =>
    let here := above ++ [name]
    match d.tables.get? id name with
    | none =>
      let (inner, tables) := d.tables.create
      ({ d with tables := tables.put id name (.table inner) }.imply here).descend inner here path
    | some node => do
      let inner ← node.inner?
      d.descend inner here path

/-- Makes a table the current one: one more of several, or the only one of its name. -/
def enter (d : Draft) (parent : Key) (name : Bytes) (oneOfMany : Bool) : Option Draft := do
  let (outer, d) ← d.descend Tables.top [] parent
  let (id, tables) := d.tables.create
  let d := { d with tables, context := parent }
  let d ← if oneOfMany then
      match tables.get? outer name with
      | none => some { d with tables := tables.put outer name (.tables id) }
      | some (.tables _) => some { d with tables := tables.put outer name (.tables id) }
      | some _ => none
    else d.define name (.table id)
  some { d with context := parent ++ [name] }

/-- Goes into the tables named by the front parts of a dotted name. -/
def enterParts (d : Draft) : Key → Option Draft
  | [] => some d
  | name :: rest => do
    let d ← (d.imply (d.context ++ [name])).enter d.context name false
    d.enterParts rest

mutual

/-- Evaluates a value that is to be called `name`. The entries of an inline table are set in the
document, and once more in a table of its own, which is the value. -/
def eval (d : Draft) (name : Bytes) (inArray : Bool) (e : Expr) : Option (Node × Draft) :=
  match e with
  | .integer n => some (.integer n, d)
  | .array items => do
    let d ← evalItems (d.note name true) name items
    some (.leaf, d)
  | .inline pairs => do
    let (own, tables) := d.tables.create
    let inside := { d with tables }.imply (d.context ++ [name])
    let inside ← inside.enter d.context name inArray
    let done ← evalPairs inside (some own) pairs
    some (.table own, { done with context := d.context })
  | _ => some (.leaf, d)

def evalItems (d : Draft) (name : Bytes) (items : List Expr) : Option Draft :=
  match items with
  | [] => some d
  | item :: rest => do
    let (_, d) ← eval d name true item
    evalItems d name rest

/-- Sets entries in the current table, and in the table `own` of an inline table. -/
def evalPairs (d : Draft) (own : Option TableId) (pairs : List (Key × Expr)) : Option Draft :=
  match pairs with
  | [] => some d
  | (key, e) :: rest => do
    let inner ← d.enterParts key.dropLast
    let name := key.getLast?.getD []
    let (value, inner) ← eval inner name false e
    let inner ← inner.define name value
    let inner := inner.note name (e matches .array _)
    let tables ← match own with
      | some own => inner.tables.putAt own value name key.dropLast
      | none => some inner.tables
    evalPairs { inner with tables, context := d.context } own rest

end

def apply (d : Draft) : Statement → Option Draft
  | .table key => do
    let d ← d.enter key.dropLast (key.getLast?.getD []) false
    some (d.note [] false)
  | .tableArray key => do
    let d ← d.enter key.dropLast (key.getLast?.getD []) true
    some (d.note [] false)
  | .pair key e => d.evalPairs none [(key, e)]

end Draft

def parse? (source : Bytes) : Option Tables := do
  let statements ← read? source
  let d ← statements.foldlM Draft.apply {}
  some d.tables

end Reindent.Toml
