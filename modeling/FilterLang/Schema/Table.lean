import FilterLang.Schema.LogicalType
import FilterLang.Text.Basic

/-! Tables and columns, as far as statements need to know them. -/

namespace FilterLang

/-- A column. -/
structure Column where
  name : String
  type : LogicalType
  /-- The greatest length of its texts and byte sequences. -/
  maxLength : Option Nat := none
  nullable : Bool := true
  primaryKey : Bool := false
  /-- Whether the database makes the value when a row is inserted. -/
  generated : Bool := false
  deriving DecidableEq

namespace Column

def withMaxLength (c : Column) (length : Nat) : Column := { c with maxLength := some length }

def notNull (c : Column) : Column := { c with nullable := false }

/-- A key column is never null. -/
def asPrimaryKey (c : Column) : Column := { c with primaryKey := true, nullable := false }

def asGenerated (c : Column) : Column := { c with generated := true }

end Column

/-- A table. -/
structure Table where
  name : String
  columns : List Column := []
  deriving DecidableEq

namespace Table

/-- The first column with a name, in any ASCII case. -/
def column? (t : Table) (name : String) : Option Column :=
  t.columns.find? fun c => Text.sameWord c.name name

def primaryKeys (t : Table) : List Column := t.columns.filter (·.primaryKey)

/-- The first key column that the database makes. -/
def generatedKey? (t : Table) : Option Column := t.primaryKeys.find? (·.generated)

end Table

end FilterLang
