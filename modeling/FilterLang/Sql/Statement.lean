import FilterLang.Fetch.Basic
import FilterLang.Sql.Condition

/-! The statements: select, insert, update and delete. -/

namespace FilterLang.Sql

/-- A row limit as text. -/
def limitText (n : Nat) : String := String.ofList (Text.decimal n)

/-- The row limit where it follows the first word of a statement. -/
def limitBefore (d : Dialect) (limit : Option Nat) : Fragment :=
  match limit, d.rowLimit with
  | some n, .top => [.keyword ("TOP " ++ limitText n ++ " ")]
  | some n, .first => [.keyword ("FIRST " ++ limitText n ++ " ")]
  | _, _ => []

/-- A statement with the row limit where it follows or surrounds all else. -/
def limitAround (d : Dialect) (limit : Option Nat) (f : Fragment) : Fragment :=
  match limit, d.rowLimit with
  | some n, .limit => f ++ [.keyword (" LIMIT " ++ limitText n)]
  | some n, .rowNum =>
    .keyword "SELECT * FROM (" :: (f ++ [.keyword (") WHERE ROWNUM <= " ++ limitText n)])
  | _, _ => f

/-- The columns selected: those that the table describes, or all. -/
def selectedColumns (t : Table) : Fragment :=
  if t.columns.isEmpty then [.keyword "*"]
  else Fragment.separate ", " (t.columns.map fun c => [.identifier c.name])

/-- A key to sort by. -/
def sortFragment (k : SortKey) : Fragment :=
  let column : Fragment :=
    if k.direction.isCaseInsensitive then
      [.keyword "UPPER(", .identifier k.column, .keyword ")"]
    else [.identifier k.column]
  column ++ [.keyword (" " ++ k.direction.sqlKeyword)]

def orderClause (keys : List SortKey) : Fragment :=
  if keys.isEmpty then []
  else .keyword " ORDER BY " :: Fragment.separate ", " (keys.map sortFragment)

/-- A fetch as a statement. -/
def compileSelect (d : Dialect) (f : Fetch) : Except CompileError Command :=
  (whereClause d f.table f.qualifier {}).map fun (condition, b) =>
    ⟨d, limitAround d f.limit?
      (.keyword "SELECT " :: (limitBefore d f.limit? ++ selectedColumns f.table ++
        [.keyword " FROM ", .identifier f.table.name] ++ condition ++ orderClause f.sortKeys)),
      b.parameters⟩

/-- Binds values for columns in turn and gives the names of the parameters. -/
def bindAll (d : Dialect) (t : Table) : List (String × Value) → Binder →
    Except CompileError (List String × Binder)
  | [], b => .ok ([], b)
  | (column, v) :: rest, b =>
    match b.bind d t column v with
    | .error e => .error e
    | .ok (name, b) =>
      match bindAll d t rest b with
      | .ok (names, b) => .ok (name :: names, b)
      | .error e => .error e

/-- The values that are inserted: those of columns that the database does not make. -/
def insertedValues (t : Table) (values : List (String × Value)) : List (String × Value) :=
  values.filter fun (column, _) => !((t.column? column).any (·.generated))

/-- The query that reads the key of the inserted row, where the database makes one. -/
def insertedKey? (d : Dialect) (t : Table) : Except CompileError (Option KeyQuery) :=
  match t.generatedKey? with
  | none => .ok none
  | some key => (d.keyQuery t.name key.name).map some

/-- The text that reads the key after an insertion. -/
def keyFragment : Option KeyQuery → Fragment
  | none => []
  | some q => [.keyword "; ", .keyword q.sql]

/-- An insertion of values into a table, and the query for the key that the database makes. -/
def compileInsert (d : Dialect) (t : Table) (values : List (String × Value)) :
    Except CompileError Command :=
  match insertedKey? d t with
  | .error e => .error e
  | .ok key =>
    let kept := insertedValues t values
    match bindAll d t kept {} with
    | .error e => .error e
    | .ok (names, b) =>
      if kept.isEmpty then .error (.nothingToWrite .insert t.name)
      else .ok ⟨d,
        [.keyword "INSERT INTO ", .identifier t.name, .keyword " ("] ++
          Fragment.separate ", " (kept.map fun (column, _) => [.identifier column]) ++
          [.keyword ") VALUES ("] ++ Fragment.separate ", " (names.map fun n => [.parameter n]) ++
          [.keyword ")"] ++ keyFragment key,
        b.parameters⟩

/-- An assignment of values to the rows that a filter selects, or to all rows. -/
def compileUpdate (d : Dialect) (t : Table) (assignments : List (String × Value))
    (q : Option Qualifier) : Except CompileError Command :=
  if assignments.isEmpty then .error (.nothingToWrite .update t.name)
  else
    match bindAll d t assignments {} with
    | .error e => .error e
    | .ok (names, b) =>
      (whereClause d t q b).map fun (condition, b) =>
        ⟨d,
          [.keyword "UPDATE ", .identifier t.name, .keyword " SET "] ++
            Fragment.separate ", " ((assignments.zip names).map fun (a, n) =>
              [.identifier a.1, .keyword " = ", .parameter n]) ++ condition,
          b.parameters⟩

/-- A deletion of the rows that a filter selects, or of all rows. -/
def compileDelete (d : Dialect) (t : Table) (q : Option Qualifier) : Except CompileError Command :=
  (whereClause d t q {}).map fun (condition, b) =>
    ⟨d, [.keyword "DELETE FROM ", .identifier t.name] ++ condition, b.parameters⟩

end FilterLang.Sql
