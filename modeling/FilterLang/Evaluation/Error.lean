import FilterLang.Predicate.Basic

/-! What can fail when a filter is evaluated on an object. -/

namespace FilterLang

/-- Why a filter cannot be evaluated on objects at all. -/
inductive Unsupported where
  | column
  | orChild
  deriving DecidableEq

def Unsupported.reason : Unsupported → String
  | column => "column qualifiers only evaluate raw column values"
  | orChild => "every child of an or clause must support object evaluation"

inductive EvaluationError where
  | unknownMember (member typeName : String)
  | predicate (failure : Predicate.Failure)
  /-- A relationship stands where a value is compared. -/
  | notAValue (member typeName : String)
  /-- A path leads through a value. -/
  | notTraversable (member typeName : String)
  | unsupported (qualifier : String) (why : Unsupported)
  deriving DecidableEq

def Predicate.Failure.message : Predicate.Failure → String
  | notAString subject => "like requires a string subject, found " ++ subject.name
  | notComparable subject operand => "cannot order " ++ subject.name ++ " against " ++ operand.name
  | invalidPattern pattern refusal => "invalid like pattern '" ++ pattern ++ "': " ++ refusal

def EvaluationError.message : EvaluationError → String
  | unknownMember member typeName =>
    "type '" ++ typeName ++ "' has no member named '" ++ member ++ "'"
  | predicate failure => failure.message
  | notAValue member typeName =>
    "member '" ++ member ++ "' of '" ++ typeName ++ "' is a relationship, not a value"
  | notTraversable member typeName =>
    "member '" ++ member ++ "' of '" ++ typeName ++ "' is a value and cannot be traversed"
  | unsupported qualifier why =>
    "qualifier '" ++ qualifier ++ "' does not support object evaluation: " ++ why.reason

end FilterLang
