import FilterLang.Value.Basic

/-! Entities: the objects that filters are evaluated on, with members found by name. -/

namespace FilterLang

mutual

/-- An object; of members that share a name the first is found. -/
inductive Entity where
  | mk (typeName : String) (members : List (String × Member))

/-- What a name stands for in an object. -/
inductive Member where
  | value (v : Value)
  /-- A relationship to one object that is not there. -/
  | absent
  | one (target : Entity)
  | many (items : List Entity)

end

namespace Entity

instance : Inhabited Entity := ⟨mk "" []⟩

def typeName : Entity → String
  | mk typeName _ => typeName

def members : Entity → List (String × Member)
  | mk _ members => members

/-- The member with a name. -/
def member? (e : Entity) (name : String) : Option Member := e.members.lookup name

end Entity

end FilterLang
