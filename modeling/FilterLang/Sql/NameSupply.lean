import FilterLang.Sql.Dialect
import FilterLang.Text.Digits

/-! Parameter names, each used once in a statement. -/

namespace FilterLang.Sql

/-- Whether a character may not stand in a parameter name. -/
def isReserved (c : Char) : Bool := ['\\', '/', '\'', '=', '"', '-', ' '].contains c

/-- A name with an underscore for each reserved character. -/
def sanitize (name : String) : String :=
  String.ofList (name.toList.map fun c => if isReserved c then '_' else c)

/-- The suffix of the n-th name with one base: none, `_2`, `_3` and so on. -/
def occurrenceSuffix (n : Nat) : String :=
  if n = 1 then "" else String.ofList ('_' :: Text.decimal n)

/-- The names given out in a statement, and how often each base was tried. -/
structure NameSupply where
  tried : List (String × Nat) := []
  taken : List String := []

namespace NameSupply

/-- The name for the n-th occurrence of a base. -/
def candidate (d : Dialect) (base : String) (n : Nat) : String :=
  d.parameterName base (occurrenceSuffix n)

/-- The first of `fuel` occurrences whose name is not taken, or the one after them. -/
def firstFree (d : Dialect) (base : String) (taken : List String) : (fuel n : Nat) → Nat
  | 0, n => n
  | fuel + 1, n =>
    if taken.contains (candidate d base n) then firstFree d base taken fuel (n + 1) else n

/-- A name for a column that is not taken yet. Two occurrences of a base have one name at most once,
so two more occurrences than there are taken names hold a free one. -/
def next (d : Dialect) (column : String) (s : NameSupply) : String × NameSupply :=
  let base := sanitize column
  let n := firstFree d base s.taken (s.taken.length + 2) ((s.tried.lookup base).getD 0 + 1)
  let name := candidate d base n
  (name, ⟨(base, n) :: s.tried.filter (·.1 != base), name :: s.taken⟩)

end NameSupply

end FilterLang.Sql
