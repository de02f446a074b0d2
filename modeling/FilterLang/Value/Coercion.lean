import FilterLang.Text.Basic
import FilterLang.Value.Order

/-! Conversion of a value to another kind, so that it can be compared with a value of that kind. -/

namespace FilterLang

/-- The integer, if it fits in 64 bits. -/
def int64OfInt? (i : Int) : Option Int64 :=
  if -9223372036854775808 ≤ i ∧ i ≤ 9223372036854775807 then some (Int64.ofInt i) else none

/-- The integer that a whole number in the range of the integers is. -/
def Double.toInt64? (x : Double) : Option Int64 :=
  match x.compare? intBound, x.compare? intBound.neg with
  | some high, some low =>
    if x.isWhole && high = .lt && low ≠ .lt then some (Int64.ofInt x.truncate) else none
  | _, _ => none

namespace Value

/-- `true` or `false` in any case, between blanks. -/
def boolOfText? (s : String) : Option Bool :=
  let word := String.ofList (Text.trim s.toList)
  if Text.sameWord word "true" then some true
  else if Text.sameWord word "false" then some false
  else none

/-- Conversion to another kind; null is never converted and nothing is converted to null. -/
def convert? : Value → Kind → Option Value
  | float x, .integer => x.toInt64?.map int
  | text s, .integer => ((Text.intOfText? (Text.trim s.toList)).bind int64OfInt?).map int
  | bool b, .integer => some (int (if b then 1 else 0))
  | int i, .float => some (float (.ofInt i.toInt))
  | text s, .float => (Double.ofText? (Text.trim s.toList)).map float
  | text s, .boolean => (boolOfText? s).map bool
  | int i, .boolean => if i = 0 then some (bool false) else if i = 1 then some (bool true) else none
  | text s, .dateTime => (DateTime.ofText? s).map dateTime
  | text s, .bytes => some (bytes (s.toList.flatMap String.utf8EncodeChar))
  | bool b, .text => some (text (display (bool b)))
  | int i, .text => some (text (display (int i)))
  | float x, .text => some (text (display (float x)))
  | dateTime t, .text => some (text (display (dateTime t)))
  | _, _ => none

/-- The value as one of the given kind. -/
def coerce? (v : Value) (k : Kind) : Option Value := if v.kind = k then some v else v.convert? k

/-- The kind of the values that a column holds, where text is converted to it. -/
def columnKind? : LogicalType → Option Kind
  | .boolean => some .boolean
  | .int16 | .int32 | .int64 => some .integer
  | .double | .decimal => some .float
  | .dateTime => some .dateTime
  | _ => none

/-- Text as a value of a column's type, where it can be read as one; all other values unchanged. -/
def inColumn (v : Value) (type : LogicalType) : Value :=
  match v, columnKind? type with
  | text s, some k => ((text s).coerce? k).getD (text s)
  | v, _ => v

end Value

end FilterLang
