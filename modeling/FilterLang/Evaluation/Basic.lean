import FilterLang.Entity.Basic
import FilterLang.Evaluation.Error
import FilterLang.Qualifier.Basic

/-! Evaluation of filters on entities. -/

namespace FilterLang

/-- The value of a member. An absent relationship counts as null. -/
def Entity.value (e : Entity) (name : String) : Except EvaluationError Value :=
  match e.member? name with
  | none => .error (.unknownMember name e.typeName)
  | some (.value v) => .ok v
  | some .absent => .ok .null
  | some (.one _) | some (.many _) => .error (.notAValue name e.typeName)

/-- Whether some item passes a test: the first one that passes or fails decides. -/
def anyPasses {α ε : Type} (test : α → Except ε Bool) : List α → Except ε Bool
  | [] => .ok false
  | a :: rest =>
    match test a with
    | .ok false => anyPasses test rest
    | outcome => outcome

/-- Whether an object that a path leads to passes a test. Null and an absent relationship lead
nowhere, a relationship to many leads to each of its objects. -/
def Entity.follow (test : Entity → Except EvaluationError Bool) :
    List String → Entity → Except EvaluationError Bool
  | [], e => test e
  | name :: path, e =>
    match e.member? name with
    | none => .error (.unknownMember name e.typeName)
    | some (.value .null) | some .absent => .ok false
    | some (.value _) => .error (.notTraversable name e.typeName)
    | some (.one target) => target.follow test path
    | some (.many items) => anyPasses (Entity.follow test path) items

namespace Qualifier

/-- The first child of an `or` clause that cannot be evaluated on objects. -/
def firstUnsupported? (children : List Qualifier) : Option Qualifier :=
  children.find? fun q => !q.supportsEvaluation

variable [Wildcard.Engine]

/-- Whether a predicate holds for a value, as an outcome of evaluation. -/
def holdsFor (p : Predicate) (v : Value) : Except EvaluationError Bool :=
  (p.holds v).mapError .predicate

mutual

/-- Whether a filter holds for an object. Clauses look at their children from left to right, up to
the first that decides. -/
def evaluate : Qualifier → Entity → Except EvaluationError Bool
  | column name p, _ => .error (.unsupported (leafText name p) .column)
  | property name p, e =>
    match e.value name with
    | .ok v => holdsFor p v
    | .error err => .error err
  | path elements target, e => e.follow (fun e' => target.evaluate e') elements
  | clause .and children, e => allHold children e
  | clause .or children, e =>
    match firstUnsupported? children with
    | some q => .error (.unsupported q.display .orChild)
    | none => anyHolds children e

def allHold : List Qualifier → Entity → Except EvaluationError Bool
  | [], _ => .ok true
  | q :: rest, e =>
    match q.evaluate e with
    | .ok true => allHold rest e
    | outcome => outcome

def anyHolds : List Qualifier → Entity → Except EvaluationError Bool
  | [], _ => .ok false
  | q :: rest, e =>
    match q.evaluate e with
    | .ok false => anyHolds rest e
    | outcome => outcome

end

/-- The rows for which a filter holds, in their order; the first failure ends it. A row is given by
what it is read from and the entity it is. -/
def filter {α : Type} (q : Qualifier) (entity : α → Entity) :
    List α → Except EvaluationError (List α)
  | [] => .ok []
  | a :: rest =>
    match q.evaluate (entity a) with
    | .ok true => (q.filter entity rest).map (a :: ·)
    | .ok false => q.filter entity rest
    | .error err => .error err

end Qualifier

end FilterLang
