import FilterLang.Schema.Table
import FilterLang.Sql.NameSupply
import FilterLang.Value.Coercion

/-! Binding values as parameters of a statement. -/

namespace FilterLang.Sql

/-- A parameter of a statement. -/
structure Parameter where
  /-- The name with its mark, as in the statement. -/
  name : String
  value : Value
  /-- None for a null of a column that the table does not describe. -/
  nativeType : Option NativeType
  /-- The greatest length of a text or byte sequence. -/
  size : Option Nat
  deriving DecidableEq

/-- The parameters bound so far, in order. -/
structure Binder where
  names : NameSupply := {}
  parameters : List Parameter := []

/-- The length of a text or byte sequence, where it fits in 32 bits. -/
def valueSize? : Value → Option Nat
  | .text s => if s.length ≤ 0xffffffff then some s.length else none
  | .bytes b => if b.length ≤ 0xffffffff then some b.length else none
  | _ => none

/-- The logical type as which a value is bound for a column: the column's where the table describes
it, and otherwise the value's. -/
def boundType? (t : Table) (column : String) (v : Value) : Option LogicalType :=
  match t.column? column with
  | some c => some c.type
  | none => v.logicalType?

/-- The native type as which a value is bound for a column. -/
def boundNativeType (d : Dialect) (t : Table) (column : String) (v : Value) :
    Except CompileError (Option NativeType) :=
  match boundType? t column v with
  | none => .ok none
  | some type =>
    if (d.nativeType type).isMapped then .ok (some (d.nativeType type))
    else .error (.unmappableType d.name column type)

/-- The size as which a value is bound for a column. -/
def boundSize? (t : Table) (column : String) (v : Value) : Option Nat :=
  match (t.column? column).bind (·.maxLength) with
  | some n => some n
  | none => valueSize? v

namespace Binder

/-- Binds a value for a column and gives the name of the parameter. -/
def bind (d : Dialect) (t : Table) (column : String) (v : Value) (b : Binder) :
    Except CompileError (String × Binder) :=
  match boundNativeType d t column v with
  | .error e => .error e
  | .ok type =>
    let (name, names) := b.names.next d column
    .ok (name, ⟨names, b.parameters ++ [⟨name, v, type, boundSize? t column v⟩]⟩)

end Binder

/-- A value that is compared with a column: text becomes a value of the column's type where the
table describes it. -/
def comparedValue (t : Table) (column : String) (v : Value) : Value :=
  match t.column? column with
  | some c => v.inColumn c.type
  | none => v

end FilterLang.Sql
