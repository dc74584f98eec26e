import Reindent.Toml.Syntax

/-! The tables of a document. They are numbered, since one table can stand under two names. -/
namespace Reindent.Toml

abbrev TableId := Nat

/-- A value in a document. Values other than integers and tables are not told apart, and of several
tables under one name only the last one can still change. -/
inductive Node where
  | integer (n : Int64)
  | leaf
  | table (id : TableId)
  | tables (last : TableId)
  deriving DecidableEq

def Node.inner? : Node → Option TableId
  | .table id => some id
  | .tables last => some last
  | _ => none

abbrev Table := List (Bytes × Node)

/-- A later value takes the place of an earlier one. -/
def Table.put (table : Table) (name : Bytes) (value : Node) : Table :=
  match table with
  | [] => [(name, value)]
  | e :: rest => if e.1 == name then (name, value) :: rest else e :: Table.put rest name value

theorem Table.lookup_put (table : Table) (name other : Bytes) (value : Node) :
    (table.put name value).lookup other =
      if other == name then some value else table.lookup other := by
  induction table with
  | nil => cases h : other == name <;> simp [Table.put, List.lookup_cons, h]
  | cons e rest ih =>
    obtain ⟨key, old⟩ := e
    by_cases hk : key = name
    · subst hk
      cases h : other == key <;> simp [Table.put, List.lookup_cons, h]
    · cases h : other == key with
      | false => simp [Table.put, List.lookup_cons, hk, h, ih]
      | true =>
        obtain rfl := eq_of_beq h
        simp [Table.put, hk]

/-- All tables of a document, each at its number. -/
abbrev Tables := Array Table

namespace Tables

def top : TableId := 0

def entries (tables : Tables) (id : TableId) : Table := tables.getD id []

def get? (tables : Tables) (id : TableId) (name : Bytes) : Option Node :=
  (tables.entries id).lookup name

def put (tables : Tables) (id : TableId) (name : Bytes) (value : Node) : Tables :=
  tables.modify id (·.put name value)

def create (tables : Tables) : TableId × Tables := (tables.size, tables.push [])

def find? (tables : Tables) (id : TableId) : Key → Option TableId
  | [] => some id
  | name :: path => do
    let node ← tables.get? id name
    let inner ← node.inner?
    tables.find? inner path

/-- Puts a value under a dotted name. Tables that are missing on the way are made. -/
def putAt (tables : Tables) (id : TableId) (value : Node) (name : Bytes) : Key → Option Tables
  | [] => some (tables.put id name value)
  | part :: path =>
    match tables.get? id part with
    | none =>
      let (inner, tables) := tables.create
      (tables.put id part (.table inner)).putAt inner value name path
    | some (.table inner) => tables.putAt inner value name path
    | some _ => none

end Tables
end Reindent.Toml
