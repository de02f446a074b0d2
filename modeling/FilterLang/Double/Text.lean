import FilterLang.Double.Rounding
import FilterLang.Double.Shortest
import FilterLang.Text.Basic
import FilterLang.Text.Digits

/-! Doubles as plain decimal text: the shortest digits that read back, never an exponent. Reading
accepts more than is written: a sign, an exponent, and digits on one side of the point only. -/

namespace FilterLang.Double

open Text

/-- The digits with a point, padded with zeros as far as the point needs. -/
def Decimal.plain (d : Decimal) : List Char :=
  let count : Int := d.digits.length
  if d.point ≤ 0 then '0' :: '.' :: (List.replicate (-d.point).toNat '0' ++ d.digits)
  else if d.point < count then
    d.digits.take d.point.toNat ++ '.' :: d.digits.drop d.point.toNat
  else d.digits ++ List.replicate (d.point - count).toNat '0'

/-- The plain text of a magnitude. -/
def plainMagnitude (rank : Rank) : List Char :=
  if rank.val = 0 then ['0']
  else if rank.val = infinityRank then ['i', 'n', 'f']
  else (shortest .up rank).plain

/-- A number as plain text. -/
def text : Double → String
  | nan => "NaN"
  | number negative rank =>
    String.ofList (if negative then '-' :: plainMagnitude rank else plainMagnitude rank)

/-- The exponent that ends a number: nothing, or `e`, an optional sign and digits. -/
def exponent? : List Char → Option Int
  | [] => some 0
  | c :: rest =>
    let (negative, digits) := takeSign rest
    if (c == 'e' || c == 'E') && !digits.isEmpty && digits.all Char.isDigit then
      some (if negative then -digitsValue digits else digitsValue digits)
    else none

/-- Digits with an optional point, at least one digit in all, and an optional exponent. -/
def decimal? (negative : Bool) (cs : List Char) : Option Double :=
  let whole := cs.takeWhile Char.isDigit
  let (fraction, rest) := match cs.dropWhile Char.isDigit with
    | '.' :: rest => (rest.takeWhile Char.isDigit, rest.dropWhile Char.isDigit)
    | rest => ([], rest)
  if whole.isEmpty && fraction.isEmpty then none
  else (exponent? rest).map fun exponent =>
    ofDecimal negative (digitsValue (whole ++ fraction)) (exponent - fraction.length)

/-- The number that a text stands for, correctly rounded. -/
def ofText? (cs : List Char) : Option Double :=
  let (negative, rest) := takeSign cs
  match decimal? negative rest with
  | some x => some x
  | none =>
    let word := String.ofList rest
    if Text.sameWord word "nan" then some nan
    else if Text.sameWord word "inf" || Text.sameWord word "infinity" then
      some (if negative then neg infinity else infinity)
    else none

end FilterLang.Double
