import FilterLang.Text.Basic

/-! The comparisons of the filter language and their symbols. -/

namespace FilterLang

/-- How a predicate compares a value with its operand. -/
inductive Comparison where
  | equals
  | notEqual
  | lessThan
  | greaterThan
  | lessOrEqual
  | greaterOrEqual
  | like
  deriving DecidableEq

namespace Comparison

def all : List Comparison :=
  [equals, notEqual, lessThan, greaterThan, lessOrEqual, greaterOrEqual, like]

/-- The operator in a filter. -/
def symbol : Comparison → String
  | equals => "="
  | notEqual => "!="
  | lessThan => "<"
  | greaterThan => ">"
  | lessOrEqual => "<="
  | greaterOrEqual => ">="
  | like => "like"

/-- The operator in SQL. -/
def sqlSymbol : Comparison → String
  | equals => "="
  | notEqual => "<>"
  | lessThan => "<"
  | greaterThan => ">"
  | lessOrEqual => "<="
  | greaterOrEqual => ">="
  | like => "LIKE"

/-- The comparison with a symbol; `like` is read in any case. -/
def ofSymbol? (word : String) : Option Comparison := all.find? fun c => Text.sameWord c.symbol word

/-- Whether a comparison of order holds, given how the value compares with the operand. -/
def accepts : Comparison → Ordering → Bool
  | equals, o => o == .eq
  | notEqual, o => o != .eq
  | lessThan, o => o == .lt
  | greaterThan, o => o == .gt
  | lessOrEqual, o => o != .gt
  | greaterOrEqual, o => o != .lt
  | like, _ => false

end Comparison

end FilterLang
