import FilterLang.Predicate.Comparison
import FilterLang.Predicate.Wildcard
import FilterLang.Value.Coercion

/-! Predicates: a comparison with its operand, applied to a subject.

Numbers are compared as numbers. Otherwise the operand is first converted to the kind of the
subject, so that quoted text compares with every kind. -/

namespace FilterLang

/-- A comparison and the value it compares with. -/
structure Predicate where
  comparison : Comparison
  operand : Value
  deriving DecidableEq

/-- Why a predicate cannot be applied to a subject. -/
inductive Predicate.Failure where
  /-- A pattern was applied to a subject that is not text. -/
  | notAString (subject : Value.Kind)
  /-- Subject and operand have no common order. -/
  | notComparable (subject operand : Value.Kind)
  /-- The engine refused a pattern. -/
  | invalidPattern (pattern refusal : String)
  deriving DecidableEq

namespace Predicate

/-- How a predicate is written. -/
def display (p : Predicate) : String := p.comparison.symbol ++ " " ++ p.operand.literal

/-- Equality of an operand and a subject; null equals null alone. -/
def matchesOperand (operand subject : Value) : Bool :=
  match operand, subject with
  | .null, .null => true
  | .null, _ => false
  | _, .null => false
  | operand, subject =>
    match subject.numericCompare? operand with
    | some o => o == .eq
    | none =>
      match operand.coerce? subject.kind with
      | some operand => operand.equal subject
      | none => false

/-- How a subject compares with an operand, neither of them null. -/
def order? (operand subject : Value) : Option Ordering :=
  match subject.numericCompare? operand with
  | some o => some o
  | none => (operand.coerce? subject.kind).bind subject.compare?

variable [Wildcard.Engine]

/-- Whether a subject fits a pattern; a pattern that is no text is taken as its plain text. -/
def fitsPattern (operand subject : Value) : Except Failure Bool :=
  match subject with
  | .null => .ok false
  | .text s =>
    match operand with
    | .null => .ok false
    | operand =>
      match Wildcard.Engine.refusal? operand.display with
      | none => .ok (Wildcard.isMatch operand.display s)
      | some refusal => .error (.invalidPattern operand.display refusal)
  | subject => .error (.notAString subject.kind)

/-- Whether a predicate holds for a subject. No order holds for null. -/
def holds (p : Predicate) (subject : Value) : Except Failure Bool :=
  match p.comparison with
  | .equals => .ok (matchesOperand p.operand subject)
  | .notEqual => .ok (!matchesOperand p.operand subject)
  | .like => fitsPattern p.operand subject
  | comparison =>
    if subject.isNull || p.operand.isNull then .ok false
    else match order? p.operand subject with
      | some o => .ok (comparison.accepts o)
      | none => .error (.notComparable subject.kind p.operand.kind)

end Predicate

end FilterLang
