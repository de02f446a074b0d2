import FilterLang.Proofs.Evaluation.Outcome

/-! Paths by the list of what they lead to.

`Entity.reached` lists the ends of a path depth first and from left to right, errors included, with
nothing left out after a match. Evaluation stops early, but it stops at the first end of that list
that decides (`Entity.follow_eq_firstDecisive`). Main statement: `evaluate_path_eq`. -/

namespace FilterLang

/-- The ends of a path in their order: an object, or the error of a member that is missing or is a
value. Null and an absent relationship have no end behind them. -/
def Entity.reached : List String → Entity → List (Except EvaluationError Entity)
  | [], e => [.ok e]
  | name :: path, e =>
    match e.member? name with
    | none => [.error (.unknownMember name e.typeName)]
    | some (.value .null) | some .absent => []
    | some (.value _) => [.error (.notTraversable name e.typeName)]
    | some (.one target) => target.reached path
    | some (.many items) => items.flatMap (Entity.reached path)

section Decisive

variable {ε : Type}

/-- Whether an outcome ends a search: it is true or an error. -/
def isDecisive : Except ε Bool → Bool
  | .ok false => false
  | _ => true

/-- The first outcome that ends a search; a search that nothing ends is false. -/
def firstDecisive (outcomes : List (Except ε Bool)) : Except ε Bool :=
  (outcomes.find? isDecisive).getD (.ok false)

theorem eq_false_of_not_isDecisive {o : Except ε Bool} (h : isDecisive o ≠ true) :
    o = .ok false := by
  cases o with
  | error e => exact absurd rfl h
  | ok b =>
    cases b with
    | false => rfl
    | true => exact absurd rfl h

theorem firstDecisive_singleton (o : Except ε Bool) : firstDecisive [o] = o := by
  by_cases h : isDecisive o = true
  · rw [firstDecisive, List.find?_cons_of_pos h, Option.getD_some]
  · rw [firstDecisive, List.find?_cons_of_neg h, eq_false_of_not_isDecisive h]
    rfl

/-- A search through two lists goes on to the second one if nothing ends it in the first. -/
theorem firstDecisive_append (os os' : List (Except ε Bool)) :
    firstDecisive (os ++ os') =
      if isDecisive (firstDecisive os) then firstDecisive os else firstDecisive os' := by
  rw [firstDecisive, List.find?_append]
  cases h : os.find? isDecisive with
  | none =>
    have hfirst : firstDecisive os = .ok false := by rw [firstDecisive, h, Option.getD_none]
    rw [hfirst]
    rfl
  | some o =>
    have hfirst : firstDecisive os = o := by rw [firstDecisive, h, Option.getD_some]
    rw [hfirst, if_pos (List.find?_some h), Option.some_or, Option.getD_some]

/-- A search for an item that passes goes through the outcomes of the items. -/
theorem anyPasses_eq_firstDecisive {α β : Type} {test : α → Except ε Bool}
    {ends : α → List β} {outcome : β → Except ε Bool}
    (h : ∀ a, test a = firstDecisive ((ends a).map outcome)) (items : List α) :
    anyPasses test items = firstDecisive ((items.flatMap ends).map outcome) := by
  induction items with
  | nil => rfl
  | cons a items ih =>
    rw [List.flatMap_cons, List.map_append, firstDecisive_append, ← ih, ← h, anyPasses]
    split
    · rename_i hfalse
      rw [hfalse]
      rfl
    · rename_i hne
      by_cases hdecisive : isDecisive (test a) = true
      · rw [if_pos hdecisive]
      · exact (hne (eq_false_of_not_isDecisive hdecisive)).elim

end Decisive

/-- Following a path stops at the first of its ends that decides. -/
theorem Entity.follow_eq_firstDecisive (test : Entity → Except EvaluationError Bool)
    (path : List String) (e : Entity) :
    e.follow test path = firstDecisive ((e.reached path).map (·.bind test)) := by
  induction path generalizing e with
  | nil => exact (firstDecisive_singleton (test e)).symm
  | cons name path ih =>
    rw [follow, reached]
    cases e.member? name with
    | none => rfl
    | some member =>
      cases member with
      | value v => cases v <;> rfl
      | absent => rfl
      | one target => exact ih target
      | many items => exact anyPasses_eq_firstDecisive ih items

namespace Qualifier

/-- A path gives the first of its ends that is an error or an object for which the filter behind it
holds or fails, and is false if there is none. Paths that follow each other are one path. -/
theorem evaluate_path_eq [Wildcard.Engine] (elements more : List String) (q : Qualifier)
    (e : Entity) :
    (path elements q).evaluate e =
        firstDecisive ((e.reached elements).map (·.bind q.evaluate)) ∧
      (path (elements ++ more) q).evaluate e = (path elements (path more q)).evaluate e := by
  constructor
  · rw [evaluate]
    exact e.follow_eq_firstDecisive q.evaluate elements
  · exact (evaluate_path_path elements more q e).symm

end Qualifier

end FilterLang
