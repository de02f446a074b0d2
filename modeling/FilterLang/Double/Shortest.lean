import FilterLang.Double.Basic

/-! The shortest decimal that reads back as a given number.

The decimals that read back as the number of rank `r` fill the interval between the midpoints to its
two neighbours; the ends belong to it when `r` is even. For one digit, two digits and so on, the two
points of the decimal grid around the number are tried, and the first grid with a point inside
wins. -/

namespace FilterLang.Double

/-- A decimal: the digits stand after the point, which is then moved `point` places to the right. -/
structure Decimal where
  digits : List Char
  point : Int
  deriving DecidableEq

/-- Which of two equally near decimals is taken. -/
inductive Tie where
  | up
  | even
  deriving DecidableEq

/-- Twice the interval of magnitudes that round to `rank`, in units. -/
def doubledInterval (rank : Nat) : Nat × Nat :=
  (units (rank - 1) + units rank, units rank + units (rank + 1))

/-- Whether `num / den` units round to `rank`. -/
def roundsTo (rank num den : Nat) : Bool :=
  let (low, high) := doubledInterval rank
  if rank % 2 = 0 then low * den ≤ 2 * num && 2 * num ≤ high * den
  else low * den < 2 * num && 2 * num < high * den

/-- The least `k` with the magnitude below `10 ^ k`. -/
def decimalPoint (rank : Nat) : Int :=
  (Nat.toDigits 10 (units rank * Nat.pow 10 400 / one)).length - 400

/-- `10 ^ exponent` units as a fraction. -/
def powerOfTen (exponent : Int) : Nat × Nat :=
  if 0 ≤ exponent then (Nat.pow 10 exponent.toNat * one, 1) else (one, Nat.pow 10 (-exponent).toNat)

/-- The multiple of `10 ^ exponent` that reads back as `rank`, if one of the two nearest does. -/
def nearestOnGrid? (tie : Tie) (rank : Nat) (exponent : Int) : Option Nat :=
  let (num, den) := powerOfTen exponent
  let scaled := units rank * den
  let below := scaled / num
  let hit (multiple : Nat) := roundsTo rank (multiple * num) den
  match hit below, hit (below + 1) with
  | false, false => none
  | true, false => some below
  | false, true => some (below + 1)
  | true, true =>
    match compare (2 * (scaled % num)) num with
    | .lt => some below
    | .gt => some (below + 1)
    | .eq =>
      match tie with
      | .up => some (below + 1)
      | .even => some (below + below % 2)

/-- A multiple of a power of ten as a decimal without trailing zeros. -/
def Decimal.ofMultiple (multiple : Nat) (exponent : Int) : Decimal :=
  let digits := Nat.toDigits 10 multiple
  ⟨(digits.reverse.dropWhile (· == '0')).reverse, exponent + digits.length⟩

/-- The decimal with the given number of digits before the grid's end, if one reads back as
`rank`. -/
def withLength? (tie : Tie) (rank : Nat) (length : Nat) : Option Decimal :=
  let exponent := decimalPoint rank - length
  (nearestOnGrid? tie rank exponent).map (Decimal.ofMultiple · exponent)

/-- The shortest decimal that reads back as a positive finite magnitude, the nearest of that
length. -/
def shortest (tie : Tie) (rank : Nat) : Decimal :=
  (((List.range' 1 17).findSome? (withLength? tie rank))).getD ⟨[], 0⟩

end FilterLang.Double
