import FilterLang.Proofs.Evaluation.Clause

/-! Filters that can be evaluated on objects, and what evaluating the others gives.

Whether a filter can be evaluated is decided on the tree alone, by the columns that occur in it.
Where none does, no object makes the evaluation fail for that reason: the errors of a path are those
of its members or of the filter behind it (`Entity.error_of_follow`), the errors of a clause are
those of its children (`exists_of_evaluateAll_eq_error`). Main statement:
`supportsEvaluation_iff_and_evaluate`. -/

namespace FilterLang

namespace Qualifier

/-- A node that stands somewhere in a filter. -/
inductive Occurs (node : Qualifier) : Qualifier → Prop
  | root : Occurs node node
  | path (elements : List String) {target : Qualifier} (h : Occurs node target) :
    Occurs node (.path elements target)
  | clause (c : Connective) {children : List Qualifier} {child : Qualifier}
    (hchild : child ∈ children) (h : Occurs node child) : Occurs node (.clause c children)

/-- A filter in which some node is a column. -/
def HasColumn (q : Qualifier) : Prop := ∃ name p, Occurs (.column name p) q

theorem not_hasColumn_property (name : String) (p : Predicate) : ¬(property name p).HasColumn := by
  rintro ⟨_, _, h⟩
  cases h

theorem hasColumn_path_iff {elements : List String} {target : Qualifier} :
    (path elements target).HasColumn ↔ target.HasColumn := by
  constructor
  · rintro ⟨name, p, h⟩
    cases h with
    | path _ h => exact ⟨name, p, h⟩
  · rintro ⟨name, p, h⟩
    exact ⟨name, p, .path elements h⟩

theorem hasColumn_clause_iff {c : Connective} {children : List Qualifier} :
    (clause c children).HasColumn ↔ ∃ child ∈ children, child.HasColumn := by
  constructor
  · rintro ⟨name, p, h⟩
    cases h with
    | clause _ hchild h => exact ⟨_, hchild, name, p, h⟩
  · rintro ⟨child, hchild, name, p, h⟩
    exact ⟨name, p, .clause c hchild h⟩

theorem supportsEvaluation_iff (q : Qualifier) : q.supportsEvaluation = true ↔ ¬q.HasColumn := by
  match q with
  | .column name p =>
    have hcolumn : (column name p).HasColumn := ⟨name, p, .root⟩
    exact ⟨nofun, fun h => (h hcolumn).elim⟩
  | .property name p => exact ⟨fun _ => not_hasColumn_property name p, fun _ => rfl⟩
  | .path elements target =>
    rw [supportsEvaluation, hasColumn_path_iff]
    exact supportsEvaluation_iff target
  | .clause c children =>
    rw [supportsEvaluation, supportEvaluation_iff, hasColumn_clause_iff, not_exists]
    refine forall_congr' fun child => ?_
    rw [not_and]
    exact forall_congr' fun _ => supportsEvaluation_iff child

end Qualifier

theorem exists_of_anyPasses_eq_error {α ε : Type} {test : α → Except ε Bool} {items : List α}
    {err : ε} (h : anyPasses test items = .error err) : ∃ a ∈ items, test a = .error err := by
  induction items with
  | nil => cases h
  | cons a items ih =>
    rw [anyPasses] at h
    split at h
    · obtain ⟨item, hitem, herror⟩ := ih h
      exact ⟨item, List.mem_cons_of_mem _ hitem, herror⟩
    · exact ⟨a, List.mem_cons_self, h⟩

theorem Entity.error_of_value {e : Entity} {name : String} {err : EvaluationError}
    (h : e.value name = .error err) :
    err = .unknownMember name e.typeName ∨ err = .notAValue name e.typeName := by
  rw [value] at h
  split at h
  · cases h
    exact .inl rfl
  · cases h
  · cases h
  · cases h
    exact .inr rfl
  · cases h
    exact .inr rfl

/-- A path fails at a member that is missing or is a value, or where the test behind it fails. -/
theorem Entity.error_of_follow {test : Entity → Except EvaluationError Bool} {path : List String}
    {e : Entity} {err : EvaluationError} (h : e.follow test path = .error err) :
    (∃ name typeName, err = .unknownMember name typeName ∨ err = .notTraversable name typeName) ∨
      ∃ e', test e' = .error err := by
  induction path generalizing e with
  | nil => exact .inr ⟨e, h⟩
  | cons name path ih =>
    rw [follow] at h
    split at h
    · cases h
      exact .inl ⟨_, _, .inl rfl⟩
    · cases h
    · cases h
    · cases h
      exact .inl ⟨_, _, .inr rfl⟩
    · exact ih h
    · obtain ⟨item, -, hitem⟩ := exists_of_anyPasses_eq_error h
      exact ih hitem

namespace Qualifier

/-- The child named is the first one that holds a column. -/
theorem firstUnsupported?_eq_some_iff {children : List Qualifier} {child : Qualifier} :
    firstUnsupported? children = some child ↔ child.HasColumn ∧
      ∃ before after, children = before ++ child :: after ∧ ∀ q ∈ before, ¬q.HasColumn := by
  have hunsupported : ∀ q : Qualifier, (!q.supportsEvaluation) = true ↔ q.HasColumn := by
    intro q
    rw [Bool.not_eq_true', ← Bool.not_eq_true, supportsEvaluation_iff, Classical.not_not]
  simp only [firstUnsupported?, List.find?_eq_some_iff_append, hunsupported, Bool.not_not,
    supportsEvaluation_iff]

theorem exists_firstUnsupported? {children : List Qualifier}
    (h : ∃ child ∈ children, child.HasColumn) :
    ∃ child, firstUnsupported? children = some child := by
  obtain ⟨q, hq, hcolumn⟩ := h
  cases hnone : firstUnsupported? children with
  | some child => exact ⟨child, rfl⟩
  | none =>
    have hsupported : q.supportsEvaluation = true := by
      simpa using List.find?_eq_none.mp hnone q hq
    exact ((supportsEvaluation_iff q).mp hsupported hcolumn).elim

section Evaluate

variable [Wildcard.Engine]

theorem exists_of_evaluateAll_eq_error {c : Connective} {e : Entity} {qs : List Qualifier}
    {err : EvaluationError} (h : evaluateAll c e qs = .error err) :
    ∃ q ∈ qs, q.evaluate e = .error err := by
  induction qs with
  | nil => cases h
  | cons q qs ih =>
    rw [evaluateAll] at h
    cases hq : q.evaluate e with
    | error err' =>
      rw [hq] at h
      exact ⟨q, List.mem_cons_self, hq.trans h⟩
    | ok b =>
      rw [hq, Connective.andThen] at h
      split at h
      · obtain ⟨q', hq', herror⟩ := ih h
        exact ⟨q', List.mem_cons_of_mem _ hq', herror⟩
      · cases h

theorem evaluate_property_ne_unsupported (name : String) (p : Predicate) (e : Entity)
    (text : String) (why : Unsupported) :
    (property name p).evaluate e ≠ .error (.unsupported text why) := by
  intro h
  rw [evaluate] at h
  split at h
  · rename_i v _
    rw [holdsFor] at h
    cases hv : p.holds v <;> rw [hv] at h <;> cases h
  · rename_i err hvalue
    cases h
    rcases Entity.error_of_value hvalue with herror | herror <;> cases herror

theorem evaluate_ne_unsupported {q : Qualifier} (hq : q.supportsEvaluation = true) (e : Entity)
    (text : String) (why : Unsupported) : q.evaluate e ≠ .error (.unsupported text why) := by
  intro h
  match q with
  | .column name p => cases hq
  | .property name p => exact evaluate_property_ne_unsupported name p e text why h
  | .path elements target =>
    rw [evaluate] at h
    rcases Entity.error_of_follow h with ⟨_, _, herror | herror⟩ | ⟨e', he'⟩
    · cases herror
    · cases herror
    · exact evaluate_ne_unsupported (q := target) hq e' text why he'
  | .clause c children =>
    have hchildren := supportEvaluation_iff.mp hq
    rw [evaluate_clause c e hchildren] at h
    obtain ⟨child, hchild, herror⟩ := exists_of_evaluateAll_eq_error h
    exact evaluate_ne_unsupported (hchildren child hchild) e text why herror

/-- The check on the tree says whether a column occurs in a filter. A filter that passes it is never
found unsupported, on no object and in no part. An `or` clause with a column anywhere below it is
found so on every object, by the name of its first child that holds one, whatever the other children
would give. -/
theorem supportsEvaluation_iff_and_evaluate :
    (∀ q : Qualifier, (q.supportsEvaluation = true ↔ ¬q.HasColumn) ∧
      (q.supportsEvaluation = true →
        ∀ (e : Entity) (text : String) (why : Unsupported),
          q.evaluate e ≠ .error (.unsupported text why))) ∧
    ∀ children : List Qualifier, (∃ child ∈ children, child.HasColumn) →
      ∃ before child after, children = before ++ child :: after ∧
        (∀ q ∈ before, ¬q.HasColumn) ∧ child.HasColumn ∧
        ∀ e : Entity, (clause .or children).evaluate e =
          .error (.unsupported child.display .orChild) := by
  refine ⟨fun q => ⟨supportsEvaluation_iff q, ?_⟩, fun children h => ?_⟩
  · intro hq e text why
    exact evaluate_ne_unsupported hq e text why
  · obtain ⟨child, hfirst⟩ := exists_firstUnsupported? h
    obtain ⟨hchild, before, after, hsplit, hbefore⟩ := firstUnsupported?_eq_some_iff.mp hfirst
    refine ⟨before, child, after, hsplit, hbefore, hchild, fun e => ?_⟩
    rw [evaluate, hfirst]

end Evaluate

/-- A column under a path and an `and` clause, behind a child that holds for the object. -/
theorem supportsEvaluation_iff_and_evaluate_nested :
    let _ : Wildcard.Engine := ⟨fun _ => none⟩
    let title : Qualifier := .property "title" ⟨.equals, .text "Alien"⟩
    let inner : Qualifier := .path ["cast"] (.clause .and [title, .column "age" ⟨.equals, .null⟩])
    let film : Entity := .mk "Film" [("title", .value (.text "Alien")), ("cast", .many [])]
    title.evaluate film = .ok true ∧ inner.evaluate film = .ok false ∧
      title.supportsEvaluation = true ∧ inner.HasColumn ∧
      title.evaluate film ≠ .error (.unsupported title.display .orChild) ∧
      (clause .or [title, inner]).evaluate film = .error (.unsupported inner.display .orChild) := by
  intro _ title inner film
  obtain ⟨hall, hor⟩ := supportsEvaluation_iff_and_evaluate
  have htitle : ¬title.HasColumn := (hall title).1.mp rfl
  have hinner : inner.HasColumn :=
    ⟨"age", ⟨.equals, .null⟩, .path _ (.clause _ (List.mem_cons_of_mem _ List.mem_cons_self) .root)⟩
  obtain ⟨before, child, after, hsplit, -, hchild, hevaluate⟩ :=
    hor [title, inner] ⟨inner, List.mem_cons_of_mem _ List.mem_cons_self, hinner⟩
  have hfirst : child = inner := by
    have hmem : child ∈ [title, inner] := hsplit ▸ List.mem_append_right _ List.mem_cons_self
    rcases List.mem_cons.mp hmem with rfl | hmem
    · exact (htitle hchild).elim
    · exact List.mem_singleton.mp hmem
  refine ⟨rfl, rfl, rfl, hinner, (hall title).2 rfl film title.display .orChild, ?_⟩
  rw [hevaluate film, hfirst]

end Qualifier

end FilterLang
