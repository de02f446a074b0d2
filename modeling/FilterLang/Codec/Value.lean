import FilterLang.Codec.Record
import FilterLang.Qualifier.Basic

/-! Values, predicates and qualifiers in JSON. -/

namespace FilterLang

/-- How floats stand in JSON. -/
inductive FloatForm where
  /-- As JSON numbers, so that only finite ones can be read. -/
  | number
  /-- As plain text, which can stand for all of them; numbers are read too. -/
  | text
  deriving DecidableEq

namespace FloatForm

def encode (form : FloatForm) (x : Double) : Json :=
  match form with
  | number => .float x
  | text => .string x.text

def decode? (form : FloatForm) (j : Json) : Option Double :=
  match form, j with
  | text, .string s => Double.ofText? s.toList
  | _, j => j.double?

end FloatForm

namespace Value

def encode (form : FloatForm) : Value → Json
  | null => .string "null"
  | bool b => .tagged "bool" (.bool b)
  | int i => .tagged "int" (.int i.toInt)
  | float x => .tagged "float" (form.encode x)
  | text s => .tagged "text" (.string s)
  | dateTime t => .tagged "date_time" (.string t.exactText)
  | bytes b => .tagged "bytes" (.array (b.map fun byte => .int byte.toNat))

def decode? (form : FloatForm) (j : Json) : Option Value :=
  match j.alternative? with
  | some ("null", none) => some null
  | some ("null", some .null) => some null
  | some ("bool", some j) => j.bool?.map bool
  | some ("int", some j) => j.int64?.map fun i => int (Int64.ofInt i)
  | some ("float", some j) => (form.decode? j).map float
  | some ("text", some j) => j.string?.map text
  | some ("date_time", some j) => (j.string?.bind DateTime.ofExactText?).map dateTime
  | some ("bytes", some j) => (j.list? (Json.nat? 8)).map fun b => bytes (b.map UInt8.ofNat)
  | _ => none

end Value

namespace Comparison

def tag : Comparison → String
  | equals => "equals"
  | notEqual => "not_equal"
  | lessThan => "less_than"
  | greaterThan => "greater_than"
  | lessOrEqual => "less_or_equal"
  | greaterOrEqual => "greater_or_equal"
  | like => "like"

def decode? (j : Json) : Option Comparison := j.unit?.bind fun name => all.find? (·.tag == name)

end Comparison

def Connective.decode? (j : Json) : Option Connective :=
  j.unit?.bind fun name => [Connective.and, .or].find? (·.keyword == name)

namespace Predicate

def encode (form : FloatForm) (p : Predicate) : Json :=
  .object [("kind", .string p.comparison.tag), ("value", p.operand.encode form)]

def decode? (form : FloatForm) (j : Json) : Option Predicate := do
  match ← j.fields? ["kind", "value"] with
  | [kind, value] =>
    pure ⟨← Json.required? Comparison.decode? kind, ← Json.required? (Value.decode? form) value⟩
  | _ => none

end Predicate

namespace Qualifier

mutual

def encode (form : FloatForm) : Qualifier → Json
  | column name p =>
    .tagged "column" (.object [("column", .string name), ("predicate", p.encode form)])
  | property name p =>
    .tagged "property" (.object [("property", .string name), ("predicate", p.encode form)])
  | path elements target =>
    .tagged "path" (.object
      [("path", .array (elements.map .string)), ("qualifier", target.encode form)])
  | clause c children =>
    .tagged "clause" (.object
      [("conjunction", .string c.keyword), ("children", .array (encodeAll form children))])

def encodeAll (form : FloatForm) : List Qualifier → List Json
  | [] => []
  | q :: rest => q.encode form :: encodeAll form rest

end

/-- A name with a predicate on it. -/
def decodeLeaf? (form : FloatForm) (nameField : String) (j : Json) :
    Option (String × Predicate) := do
  match ← j.fields? [nameField, "predicate"] with
  | [name, predicate] =>
    pure (← Json.required? Json.string? name, ← Json.required? (Predicate.decode? form) predicate)
  | _ => none

/-- Reads a qualifier of at most the given depth. -/
def decodeTo? (form : FloatForm) : Nat → Json → Option Qualifier
  | 0, _ => none
  | depth + 1, j =>
    match j.alternative? with
    | some ("column", some j) => (decodeLeaf? form "column" j).map fun (n, p) => column n p
    | some ("property", some j) => (decodeLeaf? form "property" j).map fun (n, p) => property n p
    | some ("path", some j) => do
      match ← j.fields? ["path", "qualifier"] with
      | [elements, target] =>
        pure (path (← Json.required? (Json.list? Json.string?) elements)
          (← Json.required? (decodeTo? form depth) target))
      | _ => none
    | some ("clause", some j) => do
      match ← j.fields? ["conjunction", "children"] with
      | [c, children] =>
        pure (clause (← Json.required? Connective.decode? c)
          (← Json.required? (Json.list? (decodeTo? form depth)) children))
      | _ => none
    | _ => none

/-- Reads a qualifier. No document is nested deeper than a text can be read. -/
def decode? (form : FloatForm) (j : Json) : Option Qualifier := decodeTo? form 128 j

end Qualifier

end FilterLang
