/-! Double-precision numbers as exact values.

A number is a sign and a *rank*: its place in the list of all magnitudes, from zero over the finite
ones to infinity. The magnitude of rank `r` is `units r` times `2 ^ (-1074)`. -/

namespace FilterLang

/-- The place of infinity among the magnitudes. -/
def Double.infinityRank : Nat := 0x7ff0000000000000

/-- A double-precision number; all that is not a number is one value. -/
inductive Double where
  | nan
  | number (negative : Bool) (rank : Fin (Double.infinityRank + 1))
  deriving DecidableEq

namespace Double

/-- The place of a magnitude in the list of all magnitudes. -/
abbrev Rank := Fin (infinityRank + 1)

/-- The first rank whose significand has all of its 53 digits; every further run of as many ranks
has twice the distance between neighbours. -/
def firstNormal : Nat := 0x10000000000000

/-- The magnitude of a rank, in units of the least positive double. -/
def units (rank : Nat) : Nat :=
  if rank < firstNormal then rank
  else (firstNormal + rank % firstNormal) * Nat.pow 2 (rank / firstNormal - 1)

/-- The largest rank, not above infinity, whose magnitude is at most the given number of units. -/
def rankOfUnits (u : Nat) : Rank :=
  let rank :=
    if u < 2 * firstNormal then u
    else
      let shift := u.log2 - 52
      shift * firstNormal + u / Nat.pow 2 shift
  ⟨min rank infinityRank, by omega⟩

/-- The number of units in one. -/
def one : Nat := Nat.pow 2 1074

def signedZero (negative : Bool) : Double := .number negative ⟨0, by decide⟩

def signedInfinity (negative : Bool) : Double := .number negative ⟨infinityRank, by omega⟩

def zero : Double := signedZero false

def infinity : Double := signedInfinity false

instance : Inhabited Double := ⟨zero⟩

/-- Neither an infinity nor `nan`. -/
def isFinite : Double → Bool
  | nan => false
  | number _ rank => rank.val < infinityRank

/-- The number with the other sign. -/
def neg : Double → Double
  | nan => nan
  | number negative rank => number (!negative) rank

/-- A signed rank: the two zeros agree, and larger numbers have larger keys. -/
def key (negative : Bool) (rank : Rank) : Int := if negative then -rank.val else rank.val

/-- The order of numbers; nothing compares with what is not a number, and the zeros are equal. -/
def compare? : Double → Double → Option Ordering
  | number s r, number s' r' => some (compare (key s r) (key s' r'))
  | _, _ => none

/-- Equality of numbers: no `nan` equals itself and the zeros are equal. -/
def equal (x y : Double) : Bool := x.compare? y == some .eq

/-- A key under which all doubles are in one line: negative zero before zero, `nan` last. -/
def totalKey : Double → Int
  | nan => infinityRank + 1
  | number negative rank => if negative then -rank.val - 1 else rank.val

/-- The order of all doubles that tells the zeros apart and puts `nan` last. -/
def totalCompare (x y : Double) : Ordering := compare x.totalKey y.totalKey

/-- The whole part, rounded toward zero; meant for finite numbers. -/
def truncate : Double → Int
  | nan => 0
  | number negative rank =>
    let whole : Int := units rank / one
    if negative then -whole else whole

/-- The sign of the part after the point: how zero compares with it. -/
def zeroVersusFraction : Double → Ordering
  | nan => .eq
  | number negative rank =>
    if units rank % one = 0 then .eq else if negative then .gt else .lt

/-- A finite number without a part after the point. -/
def isWhole : Double → Bool
  | nan => false
  | number _ rank => rank.val < infinityRank && units rank % one = 0

end Double

end FilterLang
