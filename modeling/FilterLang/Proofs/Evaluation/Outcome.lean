import FilterLang.Proofs.Evaluation.Clause

/-! Outcomes of filters, the reasons of failures left out.

A clause sees its children through their outcomes in a row (`outcome_clause`), and joining filters
gives the outcomes of the two in a row (`outcome_join`). Paths that follow each other are one path
(`Entity.follow_append`). -/

namespace FilterLang

/-- A value that paths and a name lead to. -/
inductive Entity.Has : Entity → Value → Prop
  | value {e : Entity} {name : String} {v : Value} (h : e.member? name = some (.value v)) : Has e v
  | one {e target : Entity} {name : String} {v : Value} (h : e.member? name = some (.one target))
    (hv : Has target v) : Has e v
  | many {e item : Entity} {name : String} {items : List Entity} {v : Value}
    (h : e.member? name = some (.many items)) (hitem : item ∈ items) (hv : Has item v) : Has e v

namespace Entity

theorem has_of_value_eq_ok {e : Entity} {name : String} {v : Value} (h : e.value name = .ok v) :
    v = .null ∨ e.Has v := by
  rw [value] at h
  split at h
  · cases h
  · cases h
    exact .inr (.value ‹_›)
  · cases h
    exact .inl rfl
  · cases h
  · cases h

theorem toOption_anyPasses_congr {α ε : Type} {test test' : α → Except ε Bool} {items : List α}
    (h : ∀ a ∈ items, (test a).toOption = (test' a).toOption) :
    (anyPasses test items).toOption = (anyPasses test' items).toOption := by
  induction items with
  | nil => rfl
  | cons a items ih =>
    obtain ⟨ha, hitems⟩ := List.forall_mem_cons.mp h
    have ih := ih hitems
    rw [anyPasses, anyPasses]
    cases htest : test a with
    | error err =>
      cases htest' : test' a with
      | error err' => rfl
      | ok b => rw [htest, htest'] at ha; cases ha
    | ok b =>
      cases htest' : test' a with
      | error err' => rw [htest, htest'] at ha; cases ha
      | ok b' =>
        rw [htest, htest'] at ha
        cases ha
        cases b with
        | true => rfl
        | false => exact ih

/-- What a path leads to has no values but those of the object where it starts. -/
theorem toOption_follow_congr {test test' : Entity → Except EvaluationError Bool}
    (path : List String) {e : Entity}
    (h : ∀ e', (∀ v, e'.Has v → e.Has v) → (test e').toOption = (test' e').toOption) :
    (e.follow test path).toOption = (e.follow test' path).toOption := by
  induction path generalizing e with
  | nil => exact h e fun _ => id
  | cons name path ih =>
    rw [follow, follow]
    split
    · rfl
    · rfl
    · rfl
    · rfl
    · rename_i target hone
      exact ih fun e' he' => h e' fun v hv => .one hone (he' v hv)
    · rename_i items hmany
      refine toOption_anyPasses_congr fun item hitem => ?_
      exact ih fun e' he' => h e' fun v hv => .many hmany hitem (he' v hv)

theorem follow_append (test : Entity → Except EvaluationError Bool) (path path' : List String)
    (e : Entity) : e.follow test (path ++ path') = e.follow (follow test path') path := by
  induction path generalizing e with
  | nil => rfl
  | cons name path ih =>
    rw [List.cons_append, follow, follow]
    split
    · rfl
    · rfl
    · rfl
    · rfl
    · exact ih _
    · rw [funext ih]

end Entity

namespace Connective

/-- An outcome and, if it leaves the clause undecided, the next. -/
def seq (c : Connective) (o o' : Option Bool) : Option Bool := if o = some c.unit then o' else o

theorem unit_seq (c : Connective) (o : Option Bool) : c.seq (some c.unit) o = o := if_pos rfl

theorem seq_unit (c : Connective) (o : Option Bool) : c.seq o (some c.unit) = o := by
  rw [seq]
  split
  · exact Eq.symm ‹_›
  · rfl

theorem seq_assoc (c : Connective) (o o' o'' : Option Bool) :
    c.seq (c.seq o o') o'' = c.seq o (c.seq o' o'') := by
  by_cases h : o = some c.unit
  · rw [h, unit_seq, unit_seq]
  · rw [seq, seq, seq, if_neg h, if_neg h, if_neg h]

/-- The outcome of a clause, given the outcomes of its children. -/
def combine (c : Connective) (outcomes : List (Option Bool)) : Option Bool :=
  outcomes.foldr c.seq (some c.unit)

theorem combine_cons (c : Connective) (o : Option Bool) (os : List (Option Bool)) :
    c.combine (o :: os) = c.seq o (c.combine os) :=
  List.foldr_cons ..

theorem combine_singleton (c : Connective) (o : Option Bool) : c.combine [o] = o := c.seq_unit o

theorem toOption_andThen {ε : Type} (c : Connective) (o o' : Except ε Bool) :
    (c.andThen o o').toOption = c.seq o.toOption o'.toOption := by
  cases o with
  | error err => rfl
  | ok b =>
    by_cases h : b = c.unit
    · rw [h, unit_andThen]
      exact (c.unit_seq _).symm
    · have hne : some b ≠ some c.unit := mt Option.some.inj h
      rw [andThen, if_neg h]
      exact (if_neg hne).symm

end Connective

namespace Qualifier

variable [Wildcard.Engine]

/-- Whether a filter holds for an object, if it can be evaluated there. -/
def outcome (q : Qualifier) (e : Entity) : Option Bool := (q.evaluate e).toOption

theorem toOption_evaluateAll (c : Connective) (e : Entity) (qs : List Qualifier) :
    (evaluateAll c e qs).toOption = c.combine (qs.map (·.outcome e)) := by
  induction qs with
  | nil => rfl
  | cons q qs ih =>
    rw [evaluateAll, c.toOption_andThen, ih, List.map_cons, Connective.combine_cons, outcome]

/-- The outcome of a clause comes from the outcomes of its children in a row. -/
theorem outcome_clause (c : Connective) {qs : List Qualifier}
    (h : ∀ q ∈ qs, q.supportsEvaluation = true) (e : Entity) :
    (clause c qs).outcome e = c.combine (qs.map (·.outcome e)) := by
  rw [outcome, evaluate_clause c e h, toOption_evaluateAll]

theorem outcome_join (c : Connective) {left right : Qualifier}
    (hleft : left.supportsEvaluation = true) (hright : right.supportsEvaluation = true)
    (e : Entity) :
    (join c left right).outcome e = c.seq (left.outcome e) (right.outcome e) := by
  rw [outcome, evaluate_join c e hleft hright, evaluate_clause_pair c e hleft hright,
    c.toOption_andThen]
  rfl

theorem evaluate_path_path (elements more : List String) (q : Qualifier) (e : Entity) :
    (path elements (path more q)).evaluate e = (path (elements ++ more) q).evaluate e := by
  rw [evaluate, evaluate, Entity.follow_append]
  exact congrArg (fun test => e.follow test elements) (funext fun e' => by rw [evaluate])

theorem outcome_path_path (path' more : List String) (q : Qualifier) (e : Entity) :
    (path path' (path more q)).outcome e = (path (path' ++ more) q).outcome e :=
  congrArg Except.toOption (evaluate_path_path path' more q e)

end Qualifier

end FilterLang
