import FilterLang.Evaluation.Basic
import FilterLang.Proofs.Qualifier.Join

/-! Clauses as the outcomes of their children in a row.

A child hands a clause on to the next one, or it decides it or fails (`Connective.andThen`).
Outcomes in a row are associative, so it does not matter which of the children are a clause of their
own: a joined filter evaluates like the clause of its two sides (`evaluate_join`). -/

namespace FilterLang

namespace Connective

/-- The outcome that leaves a clause undecided. -/
def unit : Connective → Bool
  | and => true
  | or => false

/-- An outcome and, if it leaves the clause undecided, the next. -/
def andThen {ε : Type} (c : Connective) (o o' : Except ε Bool) : Except ε Bool :=
  match o with
  | .ok b => if b = c.unit then o' else .ok b
  | .error err => .error err

variable {ε : Type} (c : Connective) (o o' o'' : Except ε Bool)

theorem unit_andThen : c.andThen (.ok c.unit) o = o := if_pos rfl

theorem andThen_unit : c.andThen o (.ok c.unit) = o := by
  cases o with
  | error err => rfl
  | ok b =>
    rw [andThen]
    split
    · rename_i h
      rw [h]
    · rfl

theorem andThen_assoc : c.andThen (c.andThen o o') o'' = c.andThen o (c.andThen o' o'') := by
  cases o with
  | error err => rfl
  | ok b =>
    by_cases h : b = c.unit
    · rw [h, unit_andThen, unit_andThen]
    · simp only [andThen, if_neg h]

end Connective

namespace Qualifier

theorem supportEvaluation_iff {qs : List Qualifier} :
    supportEvaluation qs = true ↔ ∀ q ∈ qs, q.supportsEvaluation = true := by
  induction qs with
  | nil => simp [supportEvaluation]
  | cons q qs ih => simp [supportEvaluation, ih]

section Support

variable {c : Connective} {q : Qualifier} {children : List Qualifier}

theorem IsClauseOf.supports (h : IsClauseOf c q children) (hq : q.supportsEvaluation = true) :
    ∀ q' ∈ children, q'.supportsEvaluation = true := by
  rcases h with rfl | rfl
  · exact List.forall_mem_singleton.mpr hq
  · exact supportEvaluation_iff.mp hq

variable (c) {left right : Qualifier} (hleft : left.supportsEvaluation = true)
  (hright : right.supportsEvaluation = true)

include hleft hright

theorem supportsEvaluation_pair : ∀ q ∈ [left, right], q.supportsEvaluation = true :=
  List.forall_mem_cons.mpr ⟨hleft, List.forall_mem_singleton.mpr hright⟩

theorem supportsEvaluation_join : (join c left right).supportsEvaluation = true := by
  obtain ⟨ls, rs, hjoin, hls, hrs⟩ := exists_join c left right
  rw [hjoin, supportsEvaluation, supportEvaluation_iff, List.forall_mem_append]
  exact ⟨hls.supports hleft, hrs.supports hright⟩

end Support

section Outcome

variable [Wildcard.Engine]

/-- The outcome of filters one after the other. -/
def evaluateAll (c : Connective) (e : Entity) : List Qualifier → Except EvaluationError Bool
  | [] => .ok c.unit
  | q :: rest => c.andThen (q.evaluate e) (evaluateAll c e rest)

variable (c : Connective) (e : Entity)

theorem allHold_eq_evaluateAll (qs : List Qualifier) : allHold qs e = evaluateAll .and e qs := by
  induction qs with
  | nil => rfl
  | cons q qs ih =>
    rw [allHold, evaluateAll, ih]
    cases q.evaluate e with
    | error err => rfl
    | ok b => cases b <;> rfl

theorem anyHolds_eq_evaluateAll (qs : List Qualifier) : anyHolds qs e = evaluateAll .or e qs := by
  induction qs with
  | nil => rfl
  | cons q qs ih =>
    rw [anyHolds, evaluateAll, ih]
    cases q.evaluate e with
    | error err => rfl
    | ok b => cases b <;> rfl

/-- Where all children can be evaluated, a clause is its children in a row. -/
theorem evaluate_clause {qs : List Qualifier} (h : ∀ q ∈ qs, q.supportsEvaluation = true) :
    (clause c qs).evaluate e = evaluateAll c e qs := by
  cases c with
  | and =>
    rw [evaluate]
    exact allHold_eq_evaluateAll e qs
  | or =>
    have hnone : firstUnsupported? qs = none := by
      rw [firstUnsupported?, List.find?_eq_none]
      intro q hq
      rw [h q hq]
      decide
    rw [evaluate, hnone]
    exact anyHolds_eq_evaluateAll e qs

theorem evaluateAll_singleton (q : Qualifier) : evaluateAll c e [q] = q.evaluate e :=
  c.andThen_unit _

theorem evaluateAll_append (qs rs : List Qualifier) :
    evaluateAll c e (qs ++ rs) = c.andThen (evaluateAll c e qs) (evaluateAll c e rs) := by
  induction qs with
  | nil => exact (c.unit_andThen _).symm
  | cons q qs ih => rw [List.cons_append, evaluateAll, ih, evaluateAll, c.andThen_assoc]

variable {c} {q : Qualifier} {children : List Qualifier}

theorem IsClauseOf.evaluateAll_eq (h : IsClauseOf c q children)
    (hq : q.supportsEvaluation = true) : evaluateAll c e children = q.evaluate e := by
  rcases h with rfl | rfl
  · exact evaluateAll_singleton c e q
  · exact (evaluate_clause c e (supportEvaluation_iff.mp hq)).symm

variable (c) {left right : Qualifier} (hleft : left.supportsEvaluation = true)
  (hright : right.supportsEvaluation = true)

include hleft hright

/-- A clause of two filters is the one and then the other. -/
theorem evaluate_clause_pair :
    (clause c [left, right]).evaluate e = c.andThen (left.evaluate e) (right.evaluate e) := by
  rw [evaluate_clause c e (supportsEvaluation_pair hleft hright), evaluateAll,
    evaluateAll_singleton]

/-- Which of two filters is already a clause does not matter when they are joined. -/
theorem evaluate_join : (join c left right).evaluate e = (clause c [left, right]).evaluate e := by
  obtain ⟨ls, rs, hjoin, hls, hrs⟩ := exists_join c left right
  have hall := List.forall_mem_append.mpr ⟨hls.supports hleft, hrs.supports hright⟩
  rw [evaluate_clause_pair c e hleft hright, hjoin, evaluate_clause c e hall, evaluateAll_append,
    hls.evaluateAll_eq e hleft, hrs.evaluateAll_eq e hright]

end Outcome

end Qualifier

end FilterLang
