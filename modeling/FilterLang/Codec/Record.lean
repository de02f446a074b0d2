import FilterLang.Json.Basic

/-! Records and alternatives in JSON.

A record is an object, or an array of its fields in order from which trailing fields may be missing.
An object may have members that are no fields; a field that occurs twice is an error. An alternative
is its name, or an object whose one member has that name. -/

namespace FilterLang.Json

/-- The only member with a name: `some none` if there is none, `none` if there are several. -/
def soleMember? (name : String) (members : List (String × Json)) : Option (Option Json) :=
  match members.filter (·.1 == name) with
  | [] => some none
  | [(_, j)] => some (some j)
  | _ => none

/-- The fields of a record, in the order of the given names. -/
def fields? (names : List String) : Json → Option (List (Option Json))
  | object members => names.mapM fun name => soleMember? name members
  | array items =>
    if items.length ≤ names.length then
      some (items.map some ++ List.replicate (names.length - items.length) none)
    else none
  | _ => none

/-- The name of an alternative and what it holds. -/
def alternative? : Json → Option (String × Option Json)
  | string name => some (name, none)
  | object [(name, j)] => some (name, some j)
  | _ => none

/-- The name of an alternative that holds nothing. -/
def unit? (j : Json) : Option String :=
  match j.alternative? with
  | some (name, none) | some (name, some null) => some name
  | _ => none

def bool? : Json → Option Bool
  | bool b => some b
  | _ => none

def string? : Json → Option String
  | string s => some s
  | _ => none

/-- A whole number in a range. -/
def int? (least greatest : Int) : Json → Option Int
  | int i => if least ≤ i ∧ i ≤ greatest then some i else none
  | _ => none

/-- A natural number of at most the given number of bits. -/
def nat? (bits : Nat) (j : Json) : Option Nat := (j.int? 0 (Nat.pow 2 bits - 1 : Nat)).map Int.toNat

/-- A whole number of 64 bits with a sign. -/
def int64? (j : Json) : Option Int := j.int? (-0x8000000000000000) 0x7fffffffffffffff

/-- A number, whole or not, as the nearest double. -/
def double? : Json → Option Double
  | int i => some (.ofInt i)
  | float x => some x
  | _ => none

/-- A number as the nearest single-precision number; what is not whole is a double before. -/
def single? : Json → Option Double
  | int i => some (.singleOfRatio (i < 0) i.natAbs 1)
  | float x => some x.toSingle
  | _ => none

/-- An array whose items are all of one form. -/
def list? {α : Type} (item? : Json → Option α) : Json → Option (List α)
  | array items => items.mapM item?
  | _ => none

/-- Null, or a value of the given form. -/
def nullable? {α : Type} (form? : Json → Option α) : Json → Option (Option α)
  | null => some none
  | j => (form? j).map some

/-- A field that must be there. -/
def required? {α : Type} (form? : Json → Option α) (field : Option Json) : Option α :=
  field.bind form?

/-- A field that may be missing. -/
def optional? {α : Type} (form? : Json → Option α) (default : α) : Option Json → Option α
  | none => some default
  | some j => form? j

/-- An alternative that holds something, as JSON. -/
def tagged (name : String) (j : Json) : Json := object [(name, j)]

/-- Null for nothing. -/
def ofOption {α : Type} (f : α → Json) : Option α → Json
  | none => null
  | some a => f a

end FilterLang.Json
