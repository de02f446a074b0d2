import FilterLang.Double.Basic

/-! Rounding to the nearest double, a tie going to the even neighbour. -/

namespace FilterLang.Double

/-- The whole number nearest to `num / den`; of two nearest, the even one. -/
def nearestEven (num den : Nat) : Nat :=
  let quotient := num / den
  match compare (2 * (num % den)) den with
  | .lt => quotient
  | .gt => quotient + 1
  | .eq => quotient + quotient % 2

/-- The value nearest to `num / den` among the whole numbers with at most `precision` significant
binary digits; of two nearest, the one with an even significand. -/
def roundSignificant (precision num den : Nat) : Nat :=
  let shift := (num / den).log2 + 1 - precision
  nearestEven num (den * Nat.pow 2 shift) * Nat.pow 2 shift

/-- The double nearest to `num / den`. -/
def ofRatio (negative : Bool) (num den : Nat) : Double :=
  .number negative (rankOfUnits (roundSignificant 53 (num * one) den))

/-- The double nearest to a whole number. -/
def ofInt (i : Int) : Double := ofRatio (i < 0) i.natAbs 1

/-- The double nearest to `digits * 10 ^ exponent`. The bounds on the exponent only keep the numbers
small: beyond them the nearest double is an infinity or a zero. -/
def ofDecimal (negative : Bool) (digits : Nat) (exponent : Int) : Double :=
  let length : Int := (Nat.toDigits 10 digits).length
  if digits = 0 then signedZero negative
  else if exponent + length > 400 then signedInfinity negative
  else if exponent + length < -400 then signedZero negative
  else if 0 ≤ exponent then ofRatio negative (digits * Nat.pow 10 exponent.toNat) 1
  else ofRatio negative digits (Nat.pow 10 (-exponent).toNat)

/-- The double with the value of the single-precision number nearest to `num / den`: 24 significant
binary digits, the unit `2 ^ (-149)`, and infinity from `2 ^ 128` on. -/
def singleOfRatio (negative : Bool) (num den : Nat) : Double :=
  let u := roundSignificant 24 (num * Nat.pow 2 149) den
  if Nat.pow 2 (128 + 149) ≤ u then signedInfinity negative
  else .number negative (rankOfUnits (u * Nat.pow 2 (1074 - 149)))

/-- The double with the value of the nearest single-precision number. -/
def toSingle : Double → Double
  | .nan => .nan
  | .number negative rank => singleOfRatio negative (units rank) one

end FilterLang.Double
