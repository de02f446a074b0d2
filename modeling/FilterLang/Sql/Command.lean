import FilterLang.Sql.Binding

/-! Statements as sequences of pieces. Values are in the parameters only; of them a statement holds
the names. -/

namespace FilterLang.Sql

/-- A piece of a statement. -/
inductive Piece where
  /-- Words and punctuation of SQL. -/
  | keyword (text : String)
  /-- The name of a table or a column, not yet quoted. -/
  | identifier (name : String)
  /-- The name of a parameter, with its mark. -/
  | parameter (name : String)
  deriving DecidableEq

/-- A piece as text. -/
def Piece.text (d : Dialect) : Piece → String
  | keyword text => text
  | identifier name => d.identifier name
  | parameter name => name

/-- A statement, or a part of one. -/
abbrev Fragment := List Piece

def Fragment.text (d : Dialect) (f : Fragment) : String := String.join (f.map (Piece.text d))

/-- Fragments with a separator between them. -/
def Fragment.separate (separator : String) : List Fragment → Fragment
  | [] => []
  | [f] => f
  | f :: rest => f ++ .keyword separator :: Fragment.separate separator rest

/-- A statement in a dialect with its parameters in order. -/
structure Command where
  dialect : Dialect
  pieces : Fragment
  parameters : List Parameter

namespace Command

def sql (c : Command) : String := c.pieces.text c.dialect

/-- The parameter with a name. -/
def parameter? (c : Command) (name : String) : Option Parameter :=
  c.parameters.find? (·.name == name)

def values (c : Command) : List Value := c.parameters.map (·.value)

end Command

end FilterLang.Sql
