import FilterLang.Entity.Basic
import FilterLang.Json.Writer

/-! JSON documents as values and as entities. Only an object has members: an object in it is a
relationship to one, an array a relationship to many, and all else a value. -/

namespace FilterLang

namespace Value

/-- A whole number, as a float above the 64-bit range. -/
def ofInt (i : Int) : Value :=
  if i ≤ 9223372036854775807 then int (Int64.ofInt i) else float (.ofInt i)

/-- A scalar as the value of its kind, an array or an object as its text. -/
def ofJson : Json → Value
  | .null | .unreadable => null
  | .bool b => bool b
  | .int i => ofInt i
  | .float x => float x
  | .string s => text s
  | j => text j.canonical.text

end Value

/-- The type name of a document. -/
def Json.typeName : Json → String
  | null | unreadable => "null"
  | bool _ => "boolean"
  | int _ | float _ => "number"
  | string _ => "string"
  | array _ => "array"
  | object _ => "object"

mutual

/-- The entity that a document is. -/
def Entity.ofJson : Json → Entity
  | .object members => .mk "object" (Entity.membersOfJson members)
  | j => .mk j.typeName []

def Entity.membersOfJson : List (String × Json) → List (String × Member)
  | [] => []
  | (name, j) :: rest => (name, Member.ofJson j) :: Entity.membersOfJson rest

/-- The member that a document is in an object. -/
def Member.ofJson : Json → Member
  | .object members => .one (.mk "object" (Entity.membersOfJson members))
  | .array items => .many (Entity.allOfJson items)
  | j => .value (.ofJson j)

def Entity.allOfJson : List Json → List Entity
  | [] => []
  | j :: rest => Entity.ofJson j :: Entity.allOfJson rest

end

end FilterLang
