import FilterLang.Evaluation.Basic
import FilterLang.Text.Upper

/-! Sorting entities by keys. -/

namespace FilterLang

/-- The direction of a sort key. -/
inductive Direction where
  | ascending
  | descending
  | ascendingCaseInsensitive
  | descendingCaseInsensitive
  deriving DecidableEq

namespace Direction

def isDescending : Direction → Bool
  | descending | descendingCaseInsensitive => true
  | ascending | ascendingCaseInsensitive => false

def isCaseInsensitive : Direction → Bool
  | ascendingCaseInsensitive | descendingCaseInsensitive => true
  | ascending | descending => false

/-- The word in SQL. -/
def sqlKeyword (d : Direction) : String := if d.isDescending then "DESC" else "ASC"

end Direction

/-- A sort key: a column, or a member that a dotted name reaches through relationships to one. -/
structure SortKey where
  column : String
  direction : Direction
  deriving DecidableEq

namespace SortKey

def ascending (column : String) : SortKey := ⟨column, .ascending⟩

def descending (column : String) : SortKey := ⟨column, .descending⟩

def display (k : SortKey) : String :=
  let text := k.column ++ " " ++ k.direction.sqlKeyword
  if k.direction.isCaseInsensitive then text ++ " (case-insensitive)" else text

/-- The value that a list of names reaches. Null or an absent relationship on the way gives null;
where the way ends otherwise, the value of the member there is read. -/
def read (e : Entity) : List String → Except EvaluationError Value
  | [] => e.value ""
  | [name] => e.value name
  | name :: rest =>
    match e.member? name with
    | some (.one target) => read target rest
    | some .absent | some (.value .null) => .ok .null
    | _ => e.value name

/-- The value by which an object is sorted. -/
def value (k : SortKey) (e : Entity) : Except EvaluationError Value :=
  match read e ((k.column.toList.splitOn '.').map String.ofList) with
  | .ok (.text s) => .ok (.text (if k.direction.isCaseInsensitive then Text.upper s else s))
  | outcome => outcome

/-- The values by which an object is sorted, the most significant first. -/
def values : List SortKey → Entity → Except EvaluationError (List Value)
  | [], _ => .ok []
  | k :: keys, e =>
    match k.value e with
    | .ok v => (values keys e).map (v :: ·)
    | .error err => .error err

/-- The order of two values under one key. -/
def order (k : SortKey) (a b : Value) : Ordering :=
  if k.direction.isDescending then (a.sortCompare b).swap else a.sortCompare b

/-- The order of two lists of values: the first key that tells them apart decides. -/
def compareValues : List SortKey → List Value → List Value → Ordering
  | k :: keys, a :: as, b :: bs => (k.order a b).then (compareValues keys as bs)
  | _, _, _ => .eq

/-- Each row with the values it is sorted by; the first failure ends it. -/
def decorate {α : Type} (keys : List SortKey) (entity : α → Entity) :
    List α → Except EvaluationError (List (List Value × α))
  | [] => .ok []
  | a :: rest =>
    match values keys (entity a) with
    | .ok vs => (decorate keys entity rest).map ((vs, a) :: ·)
    | .error err => .error err

end SortKey

/-- Sorts rows, keeping the order of those that no key tells apart. The keys are read first, and
only where there is something to sort. -/
def sortRows {α : Type} (keys : List SortKey) (entity : α → Entity) (rows : List α) :
    Except EvaluationError (List α) :=
  if keys.isEmpty || rows.length < 2 then .ok rows
  else (SortKey.decorate keys entity rows).map fun decorated =>
    (decorated.mergeSort fun a b => SortKey.compareValues keys a.1 b.1 != .gt).map (·.2)

/-- Sorts the rows that are held; where a key cannot be read, they stay as they are. -/
def sortInPlace {α : Type} (keys : List SortKey) (entity : α → Entity) :
    StateM (List α) (Except EvaluationError Unit) := do
  match sortRows keys entity (← get) with
  | .ok sorted =>
    set sorted
    return .ok ()
  | .error e => return .error e

end FilterLang
