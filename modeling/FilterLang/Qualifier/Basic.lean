import FilterLang.Predicate.Basic

/-! Qualifiers: the filters that the language expresses, as trees. -/

namespace FilterLang

/-- How a clause combines its children. -/
inductive Connective where
  | and
  | or
  deriving DecidableEq

/-- The word in a filter. -/
def Connective.keyword : Connective → String
  | and => "and"
  | or => "or"

/-- The word in SQL. -/
def Connective.sqlKeyword : Connective → String
  | and => "AND"
  | or => "OR"

/-- A filter. -/
inductive Qualifier where
  /-- A predicate on the value of a column. -/
  | column (name : String) (predicate : Predicate)
  /-- A predicate on a member of an object. -/
  | property (name : String) (predicate : Predicate)
  /-- A filter on an object that relationships lead to; the outermost relationship comes first. -/
  | path (elements : List String) (target : Qualifier)
  /-- A combination of filters. -/
  | clause (connective : Connective) (children : List Qualifier)

namespace Qualifier

instance : Inhabited Qualifier := ⟨clause .and []⟩

/-- A path as text, its elements joined by points. -/
def dotted (elements : List String) : String := String.intercalate "." elements

/-- A leaf as text. -/
def leafText (name : String) (p : Predicate) : String := name ++ " " ++ p.display

mutual

/-- How a filter is written: the children of a clause stand in parentheses, and so does a clause at
the end of a path. -/
def display : Qualifier → String
  | column name p => leafText name p
  | property name p => leafText name p
  | path elements (clause c children) =>
    dotted elements ++ ".(" ++
      String.intercalate (" " ++ c.keyword ++ " ") (displayAll children) ++ ")"
  | path elements target => dotted elements ++ "." ++ target.display
  | clause c children => String.intercalate (" " ++ c.keyword ++ " ") (displayAll children)

/-- The children of a clause, each in parentheses. -/
def displayAll : List Qualifier → List String
  | [] => []
  | q :: rest => ("(" ++ q.display ++ ")") :: displayAll rest

end

mutual

/-- Whether no column occurs in a filter, so that it can be evaluated on objects. -/
def supportsEvaluation : Qualifier → Bool
  | column .. => false
  | property .. => true
  | path _ target => target.supportsEvaluation
  | clause _ children => supportEvaluation children

def supportEvaluation : List Qualifier → Bool
  | [] => true
  | q :: rest => q.supportsEvaluation && supportEvaluation rest

end

mutual

/-- The number of nodes of a filter. -/
def size : Qualifier → Nat
  | column .. | property .. => 1
  | path _ target => 1 + target.size
  | clause _ children => 1 + sizes children

def sizes : List Qualifier → Nat
  | [] => 0
  | q :: rest => q.size + sizes rest

end

mutual

/-- Equality of filters, under which no operand `nan` equals itself. -/
def equal : Qualifier → Qualifier → Bool
  | column n p, column n' p' =>
    n == n' && p.comparison == p'.comparison && p.operand.equal p'.operand
  | property n p, property n' p' =>
    n == n' && p.comparison == p'.comparison && p.operand.equal p'.operand
  | path es q, path es' q' => es == es' && q.equal q'
  | clause c qs, clause c' qs' => c == c' && equalAll qs qs'
  | _, _ => false

def equalAll : List Qualifier → List Qualifier → Bool
  | [], [] => true
  | q :: qs, q' :: qs' => q.equal q' && equalAll qs qs'
  | _, _ => false

end

mutual

/-- Identity of filters, under which an operand `nan` is itself. -/
def decEq : (q q' : Qualifier) → Decidable (q = q')
  | column n p, column n' p' | property n p, property n' p' =>
    decidable_of_iff (n = n' ∧ p = p') (by simp)
  | path es q, path es' q' =>
    have := q.decEq q'
    decidable_of_iff (es = es' ∧ q = q') (by simp)
  | clause c qs, clause c' qs' =>
    have := decEqAll qs qs'
    decidable_of_iff (c = c' ∧ qs = qs') (by simp)
  | column .., property .. | column .., path .. | column .., clause ..
  | property .., column .. | property .., path .. | property .., clause ..
  | path .., column .. | path .., property .. | path .., clause ..
  | clause .., column .. | clause .., property .. | clause .., path .. => isFalse nofun

def decEqAll : (qs qs' : List Qualifier) → Decidable (qs = qs')
  | [], [] => isTrue rfl
  | q :: qs, q' :: qs' =>
    have := q.decEq q'
    have := decEqAll qs qs'
    decidable_of_iff (q = q' ∧ qs = qs') (by simp)
  | [], _ :: _ | _ :: _, [] => isFalse nofun

end

instance : DecidableEq Qualifier := decEq

/-- What a walk over a filter meets, one node at a time. -/
inductive Visit where
  | column (name : String) (predicate : Predicate)
  | property (name : String) (predicate : Predicate)
  | path (elements : List String)
  | clause (connective : Connective) (children : Nat)
  deriving DecidableEq

mutual

/-- The nodes of a filter, each before what is below it. -/
def visits : Qualifier → List Visit
  | column name p => [.column name p]
  | property name p => [.property name p]
  | path elements target => .path elements :: target.visits
  | clause c children => .clause c children.length :: visitsAll children

def visitsAll : List Qualifier → List Visit
  | [] => []
  | q :: rest => q.visits ++ visitsAll rest

end

/-- Joins two filters. A left filter that is already a clause of the connective takes the right one
as its last child; otherwise a right one of the connective takes the left one as its first. -/
def join (c : Connective) (left right : Qualifier) : Qualifier :=
  match left, right with
  | clause d children, right =>
    if d = c then clause c (children ++ [right])
    else match right with
      | clause e others =>
        if e = c then clause c (clause d children :: others)
        else clause c [clause d children, clause e others]
      | right => clause c [clause d children, right]
  | left, clause e others =>
    if e = c then clause c (left :: others) else clause c [left, clause e others]
  | left, right => clause c [left, right]

end Qualifier

end FilterLang
