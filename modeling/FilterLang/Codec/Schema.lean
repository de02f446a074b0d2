import FilterLang.Codec.Value
import FilterLang.Fetch.Basic

/-! Logical types, columns, tables, sort keys and fetches in JSON. -/

namespace FilterLang

namespace LogicalType

/-- The logical types with a name of their own. -/
def named : List (String × LogicalType) := [
  ("boolean", boolean), ("int16", int16), ("int32", int32), ("int64", int64), ("double", double),
  ("decimal", decimal), ("string", string), ("date_time", dateTime), ("bytes", bytes),
  ("guid", guid), ("interval", interval)]

def encode : LogicalType → Json
  | custom name => .tagged "custom" (.string name)
  | type => .string (((named.find? (·.2 = type)).map (·.1)).getD "")

def decode? (j : Json) : Option LogicalType :=
  match j.alternative? with
  | some ("custom", some j) => j.string?.map custom
  | _ => j.unit?.bind fun name => named.lookup name

end LogicalType

namespace Column

def encode (c : Column) : Json :=
  .object [("name", .string c.name), ("logical_type", c.type.encode),
    ("max_length", .ofOption (fun n : Nat => .int n) c.maxLength), ("nullable", .bool c.nullable),
    ("primary_key", .bool c.primaryKey), ("generated", .bool c.generated)]

def decode? (j : Json) : Option Column := do
  match ← j.fields?
    ["name", "logical_type", "max_length", "nullable", "primary_key", "generated"] with
  | [name, type, maxLength, nullable, primaryKey, generated] =>
    pure ⟨← Json.required? Json.string? name, ← Json.required? LogicalType.decode? type,
      ← Json.optional? (Json.nullable? (Json.nat? 32)) none maxLength,
      ← Json.optional? Json.bool? true nullable, ← Json.optional? Json.bool? false primaryKey,
      ← Json.optional? Json.bool? false generated⟩
  | _ => none

end Column

namespace Table

def encode (t : Table) : Json :=
  .object [("name", .string t.name), ("columns", .array (t.columns.map Column.encode))]

def decode? (j : Json) : Option Table := do
  match ← j.fields? ["name", "columns"] with
  | [name, columns] =>
    pure ⟨← Json.required? Json.string? name,
      ← Json.optional? (Json.list? Column.decode?) [] columns⟩
  | _ => none

end Table

namespace Direction

def tag : Direction → String
  | ascending => "ascending"
  | descending => "descending"
  | ascendingCaseInsensitive => "ascending_case_insensitive"
  | descendingCaseInsensitive => "descending_case_insensitive"

def decode? (j : Json) : Option Direction :=
  j.unit?.bind fun name =>
    [ascending, descending, ascendingCaseInsensitive, descendingCaseInsensitive].find?
      (·.tag == name)

end Direction

namespace SortKey

def encode (k : SortKey) : Json :=
  .object [("column", .string k.column), ("direction", .string k.direction.tag)]

def decode? (j : Json) : Option SortKey := do
  match ← j.fields? ["column", "direction"] with
  | [column, direction] =>
    pure ⟨← Json.required? Json.string? column,
      ← Json.optional? Direction.decode? .ascending direction⟩
  | _ => none

end SortKey

namespace Fetch

def encode (form : FloatForm) (f : Fetch) : Json :=
  .object [("table", f.table.encode), ("qualifier", .ofOption (·.encode form) f.qualifier),
    ("sort_orderings", .array (f.sortKeys.map SortKey.encode)), ("fetch_limit", .int f.rowLimit)]

def decode? (form : FloatForm) (j : Json) : Option Fetch := do
  match ← j.fields? ["table", "qualifier", "sort_orderings", "fetch_limit"] with
  | [table, qualifier, sortKeys, rowLimit] =>
    pure ⟨← Json.required? Table.decode? table,
      ← Json.optional? (Json.nullable? (Qualifier.decode? form)) none qualifier,
      ← Json.optional? (Json.list? SortKey.decode?) [] sortKeys,
      ← Json.optional? Json.int64? (-1) rowLimit⟩
  | _ => none

end Fetch

end FilterLang
