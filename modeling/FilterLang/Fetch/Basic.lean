import FilterLang.Fetch.Sorting
import FilterLang.Schema.Table

/-! Fetches: which rows of a table are wanted, in which order, and how many. -/

namespace FilterLang

/-- A query. A negative limit is none. -/
structure Fetch where
  table : Table
  qualifier : Option Qualifier := none
  sortKeys : List SortKey := []
  rowLimit : Int := -1

namespace Fetch

/-- The greatest number of rows, if there is one. -/
def limit? (f : Fetch) : Option Nat := if 0 ≤ f.rowLimit then some f.rowLimit.toNat else none

/-- The rows wanted: first filtered, then sorted, then cut. -/
def apply [Wildcard.Engine] {α : Type} (f : Fetch) (entity : α → Entity) (rows : List α) :
    Except EvaluationError (List α) := do
  let kept ← match f.qualifier with
    | some q => q.filter entity rows
    | none => .ok rows
  let sorted ← sortRows f.sortKeys entity kept
  match f.limit? with
  | some n => .ok (sorted.take n)
  | none => .ok sorted

end Fetch

end FilterLang
