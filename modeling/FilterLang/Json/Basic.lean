import FilterLang.Double.Rounding

/-! JSON documents. An object keeps its members in written order, repeated names included; a number
is whole if it is written without a point and an exponent and fits in 64 bits. What is well written
but has no value is kept as a place in the document, since a reader may not look at it. -/

namespace FilterLang

/-- A JSON document. -/
inductive Json where
  | null
  | bool (b : Bool)
  /-- A whole number from `-2 ^ 63` to `2 ^ 64 - 1`. -/
  | int (i : Int)
  /-- Any other number, as the nearest double. -/
  | float (x : Double)
  | string (s : String)
  | array (items : List Json)
  | object (members : List (String × Json))
  /-- A number that rounds to an infinity, a string or an object's name with half of a surrogate
  pair, or a container nested too deep. -/
  | unreadable

namespace Json

instance : Inhabited Json := ⟨null⟩

mutual

/-- No part of the document is unreadable. -/
def isReadable : Json → Bool
  | unreadable => false
  | array items => itemsReadable items
  | object members => membersReadable members
  | _ => true

def itemsReadable : List Json → Bool
  | [] => true
  | j :: rest => j.isReadable && itemsReadable rest

def membersReadable : List (String × Json) → Bool
  | [] => true
  | (_, j) :: rest => j.isReadable && membersReadable rest

end

/-- The value of the first member with the given name. -/
def member? (name : String) : Json → Option Json
  | object members => members.lookup name
  | _ => none

/-- Puts a member into a list sorted by name, in place of one of the same name. -/
def insertMember (name : String) (value : Json) :
    List (String × Json) → List (String × Json)
  | [] => [(name, value)]
  | (name', value') :: rest =>
    if name = name' then (name, value) :: rest
    else if name < name' then (name, value) :: (name', value') :: rest
    else (name', value') :: insertMember name value rest

mutual

/-- The document with the members of every object sorted by name; of members that share a name
the last one stays. -/
def canonical : Json → Json
  | array items => array (canonicalItems items)
  | object members => object (canonicalMembers [] members)
  | j => j

def canonicalItems : List Json → List Json
  | [] => []
  | j :: rest => j.canonical :: canonicalItems rest

def canonicalMembers (sorted : List (String × Json)) :
    List (String × Json) → List (String × Json)
  | [] => sorted
  | (name, value) :: rest => canonicalMembers (insertMember name value.canonical sorted) rest

end

end Json

end FilterLang
