import FilterLang.Schema.LogicalType

/-! Native types: what a database calls the logical types. -/

namespace FilterLang.Sql

/-- The name of a type in a database, and whether it stands for a logical type at all. -/
structure NativeType where
  name : String
  isMapped : Bool
  deriving DecidableEq

/-- The native types of a database. No logical type has two entries. -/
structure TypeMap where
  entries : List (LogicalType × String)
  /-- What is reported for a logical type without an entry. -/
  unmappable : String

namespace TypeMap

/-- Puts an entry into a list, in place of one for the same logical type. -/
def insertEntry (type : LogicalType) (name : String) :
    List (LogicalType × String) → List (LogicalType × String)
  | [] => [(type, name)]
  | (type', name') :: rest =>
    if type' = type then (type, name) :: rest else (type', name') :: insertEntry type name rest

/-- The map with the given entries, of which a later one replaces an earlier one. -/
def ofList (unmappable : String) (entries : List (LogicalType × String)) : TypeMap :=
  ⟨entries.foldl (fun es (type, name) => insertEntry type name es) [], unmappable⟩

/-- The native type of a logical type. -/
def get (m : TypeMap) (type : LogicalType) : NativeType :=
  match m.entries.lookup type with
  | some name => ⟨name, true⟩
  | none => ⟨m.unmappable, false⟩

def size (m : TypeMap) : Nat := m.entries.length

end TypeMap

end FilterLang.Sql
