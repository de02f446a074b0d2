import FilterLang.Calendar.Text
import FilterLang.Double.Text
import FilterLang.Schema.LogicalType

/-! Values: what predicates compare with, what members hold and what statements bind. -/

namespace FilterLang

/-- A value. Null stands for every absence: of a scalar, of a relationship, of a database value. -/
inductive Value where
  | null
  | bool (b : Bool)
  | int (i : Int64)
  | float (x : Double)
  | text (s : String)
  | dateTime (t : DateTime)
  | bytes (b : List UInt8)
  deriving DecidableEq

namespace Value

/-- The kind of a value. -/
inductive Kind where
  | null
  | boolean
  | integer
  | float
  | text
  | dateTime
  | bytes
  deriving DecidableEq

/-- The name of a kind in messages. -/
def Kind.name : Kind → String
  | null => "null"
  | boolean => "boolean"
  | integer => "integer"
  | float => "float"
  | text => "text"
  | dateTime => "datetime"
  | bytes => "bytes"

instance : Inhabited Value := ⟨null⟩

def kind : Value → Kind
  | null => .null
  | bool _ => .boolean
  | int _ => .integer
  | float _ => .float
  | text _ => .text
  | dateTime _ => .dateTime
  | bytes _ => .bytes

def isNull (v : Value) : Bool := v.kind == .null

/-- The logical type as which a value is bound when no column says otherwise. -/
def logicalType? : Value → Option LogicalType
  | null => none
  | bool _ => some .boolean
  | int _ => some .int64
  | float _ => some .double
  | text _ => some .string
  | dateTime _ => some .dateTime
  | bytes _ => some .bytes

/-- Two upper case hexadecimal digits. -/
def hexByte (b : UInt8) : List Char :=
  let digit (n : Nat) := if n < 10 then Char.ofNat (48 + n) else Char.ofNat (55 + n)
  [digit (b.toNat / 16), digit (b.toNat % 16)]

/-- The plain text of a value. -/
def display : Value → String
  | null => "NULL"
  | bool b => if b then "true" else "false"
  | int i => String.ofList (Text.intText i.toInt)
  | float x => x.text
  | text s => s
  | dateTime t => t.plainText
  | bytes b => String.ofList (b.flatMap hexByte)

/-- The characters of a quoted literal: a quote and a backslash follow a backslash. -/
def escape : List Char → List Char
  | [] => []
  | c :: rest => if c = '\'' ∨ c = '\\' then '\\' :: c :: escape rest else c :: escape rest

def quote (s : String) : String := String.ofList ('\'' :: (escape s.toList ++ ['\'']))

/-- The value as it is written in a filter: null, booleans and natural numbers bare, all else as
quoted text. -/
def literal : Value → String
  | null => "null"
  | bool b => display (bool b)
  | int i => if 0 ≤ i.toInt then display (int i) else quote (display (int i))
  | v => quote v.display

end Value

end FilterLang
