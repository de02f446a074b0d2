import FilterLang.Value.Basic

/-! Equality and order of values. -/

namespace FilterLang

namespace Double

/-- `2 ^ 63`, the least double above every 64-bit integer. -/
def intBound : Double := ofInt 9223372036854775808

/-- The exact order of an integer and a number: outside the range of the integers the range decides,
inside it the whole part and then the sign of the rest. -/
def compareInt? (i : Int64) (x : Double) : Option Ordering :=
  match x.compare? intBound, x.compare? intBound.neg with
  | some high, some low =>
    if high ≠ .lt then some .lt
    else if low = .lt then some .gt
    else some ((compare i (Int64.ofInt x.truncate)).then x.zeroVersusFraction)
  | _, _ => none

end Double

namespace Value

/-- Equality of values of one kind; numbers are compared as numbers, so no `nan` equals itself. -/
def equal : Value → Value → Bool
  | float x, float y => x.equal y
  | a, b => a == b

/-- The order of values of one kind. Nulls have none, and neither has what is not a number. -/
def compare? : Value → Value → Option Ordering
  | bool a, bool b => some (compare a b)
  | int a, int b => some (compare a b)
  | float x, float y => x.compare? y
  | text s, text t => some (compare s t)
  | dateTime t, dateTime u => some (t.compare u)
  | bytes a, bytes b => some (compare a b)
  | _, _ => none

/-- The exact order of two numbers, integers and doubles alike. -/
def numericCompare? : Value → Value → Option Ordering
  | int a, int b => some (compare a b)
  | float x, float y => x.compare? y
  | int a, float y => Double.compareInt? a y
  | float x, int b => (Double.compareInt? b x).map Ordering.swap
  | _, _ => none

/-- The place of a kind when values of different kinds are sorted. -/
def rank : Value → Nat
  | null => 0
  | bool _ => 1
  | int _ | float _ => 2
  | text _ => 3
  | dateTime _ => 4
  | bytes _ => 5

/-- The order in which values are sorted: nulls first, numbers among each other, then by kind. -/
def sortCompare : Value → Value → Ordering
  | int a, float y =>
    (Double.compareInt? a y).getD ((Double.ofInt a.toInt).totalCompare y)
  | float x, int b =>
    ((Double.compareInt? b x).map Ordering.swap).getD (x.totalCompare (.ofInt b.toInt))
  | float x, float y => x.totalCompare y
  | a, b => (a.compare? b).getD (compare a.rank b.rank)

end Value

end FilterLang
