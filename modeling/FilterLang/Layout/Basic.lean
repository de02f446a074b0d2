import FilterLang.Entity.Basic
import FilterLang.Layout.Attribute
import FilterLang.Layout.FieldType

/-! Member layout: which names reach which fields of a declared structure.

A field is reached by its name and by the name in Pascal case, unless an attribute names it
otherwise. -/

namespace FilterLang.Layout

/-- A declared field. -/
structure Field where
  name : String
  type : List Lexeme
  attributes : List Attribute

/-- A field as it is written, if its type and attributes are well written. -/
def Field.ofText? (name type : String) (attributes : List String) : Option Field := do
  pure ⟨name, ← Lexeme.ofText? type, (← attributes.mapM Attribute.allOfText?).flatten⟩

/-- The shape of a declared type. -/
inductive Shape where
  | named (fields : List Field)
  | tuple
  | unit
  | enumeration
  | union

/-- What a field is to its owner. -/
inductive Role where
  | value
  | object
  | optionalObject
  | many
  deriving DecidableEq

/-- A field as a member: the names that reach it and what it is. -/
structure Slot where
  names : List String
  role : Role
  deriving DecidableEq

/-- A name in Pascal case: underscores go, and the ASCII letter after one, or at the start, becomes
upper case. -/
def pascal : (capital : Bool) → List Char → List Char
  | _, [] => []
  | capital, c :: rest =>
    if c = '_' then pascal true rest
    else (if capital then c.toUpper else c) :: pascal false rest

/-- A field name without the mark of a name that is also a keyword. -/
def bareName (name : String) : String :=
  match name.toList with
  | 'r' :: '#' :: rest => String.ofList rest
  | _ => name

/-- The names that reach a field. -/
def memberNames (field : String) (explicit : Option String) : List String :=
  match explicit with
  | some name => [name]
  | none =>
    let name := bareName field
    let pascalName := String.ofList (pascal true name.toList)
    if pascalName = name then [name] else [name, pascalName]

/-- The slot of a field, unless it is skipped. -/
def Field.slot? (f : Field) : Except LayoutError (Option Slot) := do
  let o ← Options.ofAttributes f.attributes
  if o.skip then pure none
  else if o.object && o.many then .error .objectAndMany
  else
    let role :=
      if o.many then .many
      else if o.object then if isOption f.type then .optionalObject else .object
      else .value
    pure (some ⟨memberNames f.name o.name, role⟩)

/-- The slots of fields in their order. -/
def slots : List Field → Except LayoutError (List Slot)
  | [] => .ok []
  | f :: rest => do
    let slot ← f.slot?
    pure (slot.toList ++ (← slots rest))

/-- The members of a declared type. -/
def ofDeclaration : Shape → Except LayoutError (List Slot)
  | .named fields => slots fields
  | .tuple | .unit => .error .withoutFieldNames
  | .enumeration | .union => .error .notAStruct

/-- The members of an object of a declared type: each name of a slot with what the field holds. -/
def members (layout : List Slot) (contents : List Member) : List (String × Member) :=
  (layout.zip contents).flatMap fun (slot, content) => slot.names.map (·, content)

end FilterLang.Layout
