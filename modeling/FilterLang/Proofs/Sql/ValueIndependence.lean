import FilterLang.Sql.Statement

/-! Values reach the parameters of a statement, not its text.

Two requests of one shape differ in the values they carry alone; only whether an operand under `=`
or `!=` is null belongs to the shape. Their compilations are run side by side: binders that gave out
the same names give out the same name next, and every part of a statement agrees. Main statement:
`compile_sameShape`. -/

namespace FilterLang

/-! ### Filters of one shape -/

/-- Predicates with one comparison. Where null is not bound, both operands are null or neither. -/
structure Predicate.SameShape (p p' : Predicate) : Prop where
  comparison : p.comparison = p'.comparison
  isNull : p.comparison = .equals ∨ p.comparison = .notEqual → p.operand.isNull = p'.operand.isNull

mutual

/-- Filters that differ in their operands alone. -/
inductive Qualifier.SameShape : Qualifier → Qualifier → Prop
  | column (name : String) {p p' : Predicate} (h : p.SameShape p') :
    SameShape (.column name p) (.column name p')
  | property (name : String) {p p' : Predicate} (h : p.SameShape p') :
    SameShape (.property name p) (.property name p')
  | path (elements : List String) {q q' : Qualifier} (h : SameShape q q') :
    SameShape (.path elements q) (.path elements q')
  | clause (c : Connective) {qs qs' : List Qualifier} (h : SameShapes qs qs') :
    SameShape (.clause c qs) (.clause c qs')

inductive Qualifier.SameShapes : List Qualifier → List Qualifier → Prop
  | nil : SameShapes [] []
  | cons {q q' : Qualifier} {qs qs' : List Qualifier} (h : SameShape q q')
    (hs : SameShapes qs qs') : SameShapes (q :: qs) (q' :: qs')

end

theorem Value.eq_null_of_isNull {v : Value} (h : v.isNull = true) : v = .null := by
  cases v <;> first | rfl | cases h

/-! ### Results that agree -/

namespace Sql

/-- Two results in a relation, or one error twice. -/
inductive Agree {α : Type} (R : α → α → Prop) :
    Except CompileError α → Except CompileError α → Prop
  | ok {a a' : α} (h : R a a') : Agree R (.ok a) (.ok a')
  | error (e : CompileError) : Agree R (.error e) (.error e)

theorem Agree.map {α β : Type} {R : α → α → Prop} {S : β → β → Prop} {f f' : α → β}
    {x x' : Except CompileError α} (h : Agree R x x') (hf : ∀ a a', R a a' → S (f a) (f' a')) :
    Agree S (x.map f) (x'.map f') := by
  cases h with
  | ok h => exact .ok (hf _ _ h)
  | error e => exact .error e

theorem Agree.ok_or_error {α : Type} {R : α → α → Prop} {x x' : Except CompileError α}
    (h : Agree R x x') :
    (∃ a a', x = .ok a ∧ x' = .ok a' ∧ R a a') ∨ ∃ e, x = .error e ∧ x' = .error e := by
  cases h with
  | ok h => exact .inl ⟨_, _, rfl, rfl, h⟩
  | error e => exact .inr ⟨e, rfl, rfl⟩

/-- Binders that gave out the same names. -/
structure Binder.SameNames (b b' : Binder) : Prop where
  names : b.names = b'.names
  parameters : b.parameters.map (·.name) = b'.parameters.map (·.name)

theorem Binder.SameNames.refl (b : Binder) : b.SameNames b := ⟨rfl, rfl⟩

/-- Results with one fragment, or whatever a statement is written from, and the same names. -/
abbrev SameText {α : Type} (x x' : α × Binder) : Prop := x.1 = x'.1 ∧ x.2.SameNames x'.2

/-! ### Conditions -/

/-- Every dialect has a type for every kind of value. -/
theorem isMapped_of_logicalType? (d : Dialect) {v : Value} {type : LogicalType}
    (h : v.logicalType? = some type) : (d.nativeType type).isMapped = true := by
  cases v <;> cases h <;> cases d <;> rfl

theorem boundNativeType_ok_of_column?_eq_none (d : Dialect) {t : Table} {column : String}
    (h : t.column? column = none) (v : Value) :
    ∃ type, boundNativeType d t column v = .ok type := by
  rw [boundNativeType, boundType?, h]
  cases hv : v.logicalType? with
  | none => exact ⟨none, rfl⟩
  | some type => exact ⟨_, if_pos (isMapped_of_logicalType? d hv)⟩

theorem boundNativeType_agree (d : Dialect) (t : Table) (column : String) (v v' : Value) :
    Agree (fun _ _ => True) (boundNativeType d t column v) (boundNativeType d t column v') := by
  cases hc : t.column? column with
  | none =>
    obtain ⟨type, htype⟩ := boundNativeType_ok_of_column?_eq_none d hc v
    obtain ⟨type', htype'⟩ := boundNativeType_ok_of_column?_eq_none d hc v'
    rw [htype, htype']
    exact .ok trivial
  | some c =>
    have hbound : ∀ w, boundType? t column w = some c.type := fun w => by rw [boundType?, hc]
    simp only [boundNativeType, hbound]
    split
    · exact .ok trivial
    · exact .error _

theorem Binder.bind_agree (d : Dialect) (t : Table) (column : String) (v v' : Value)
    {b b' : Binder} (hb : b.SameNames b') :
    Agree SameText (b.bind d t column v) (b'.bind d t column v') := by
  rw [Binder.bind, Binder.bind]
  rcases (boundNativeType_agree d t column v v').ok_or_error with
    ⟨type, type', htype, htype', -⟩ | ⟨e, htype, htype'⟩
  · simp only [htype, htype', hb.names]
    refine .ok ⟨rfl, rfl, ?_⟩
    simp [hb.parameters]
  · rw [htype, htype']
    exact .error e

theorem comparison_like (d : Dialect) (t : Table) (column : String) (v : Value) (b : Binder) :
    comparison d t column ⟨.like, v⟩ b =
      (b.bind d t column v).map fun (name, b) => (likeFragment d column name, b) := by
  cases h : b.bind d t column v <;> simp only [comparison, h] <;> rfl

/-- Where null is no operand of an equality, a comparison binds its operand. -/
theorem comparison_bound (d : Dialect) (t : Table) (column : String) {c : Comparison}
    (hlike : c ≠ .like) {v : Value} (hv : c = .equals ∨ c = .notEqual → v.isNull = false)
    (b : Binder) :
    comparison d t column ⟨c, v⟩ b = (b.bind d t column (comparedValue t column v)).map
      fun (name, b) =>
        ([.identifier column, .keyword (" " ++ c.sqlSymbol ++ " "), .parameter name], b) := by
  rw [comparison]
  split
  · rename_i heq hnull
    exact Bool.noConfusion ((congrArg Value.isNull hnull).symm.trans (hv (.inl heq)))
  · rename_i heq hnull
    exact Bool.noConfusion ((congrArg Value.isNull hnull).symm.trans (hv (.inr heq)))
  · rename_i heq
    exact (hlike heq).elim
  · cases b.bind d t column (comparedValue t column v) <;> rfl

theorem comparison_agree (d : Dialect) (t : Table) (column : String) {p p' : Predicate}
    (h : p.SameShape p') {b b' : Binder} (hb : b.SameNames b') :
    Agree SameText (comparison d t column p b) (comparison d t column p' b') := by
  obtain ⟨c, v⟩ := p
  obtain ⟨c', v'⟩ := p'
  obtain ⟨hc, hnull⟩ := h
  obtain rfl : c = c' := hc
  by_cases hlike : c = .like
  · subst hlike
    rw [comparison_like, comparison_like]
    refine (Binder.bind_agree d t column v v' hb).map ?_
    rintro ⟨name, _⟩ ⟨_, _⟩ ⟨rfl, hb⟩
    exact ⟨rfl, hb⟩
  by_cases hunbound : (c = .equals ∨ c = .notEqual) ∧ v.isNull = true
  · obtain ⟨heq, hv⟩ := hunbound
    obtain rfl : v = .null := Value.eq_null_of_isNull hv
    obtain rfl : v' = .null := Value.eq_null_of_isNull ((hnull heq).symm.trans hv)
    rcases heq with rfl | rfl
    · exact .ok ⟨rfl, hb⟩
    · exact .ok ⟨rfl, hb⟩
  · have hv : c = .equals ∨ c = .notEqual → v.isNull = false := fun heq =>
      Bool.eq_false_iff.mpr fun hv => hunbound ⟨heq, hv⟩
    have hv' : c = .equals ∨ c = .notEqual → v'.isNull = false := fun heq =>
      (hnull heq).symm.trans (hv heq)
    rw [comparison_bound d t column hlike hv, comparison_bound d t column hlike hv']
    refine (Binder.bind_agree d t column _ _ hb).map ?_
    rintro ⟨name, _⟩ ⟨_, _⟩ ⟨rfl, hb⟩
    exact ⟨rfl, hb⟩

mutual

theorem condition_agree (d : Dialect) (t : Table) {q q' : Qualifier} (h : q.SameShape q')
    {b b' : Binder} (hb : b.SameNames b') :
    Agree SameText (condition d t q b) (condition d t q' b') := by
  cases h with
  | column name h =>
    rw [condition, condition]
    exact comparison_agree d t name h hb
  | property name h =>
    rw [condition, condition]
    exact comparison_agree d t name h hb
  | path elements h =>
    rw [condition, condition]
    exact .error _
  | clause c h =>
    have hchildren := conditions_agree d t h hb
    cases h with
    | nil =>
      rw [condition, condition]
      exact .ok ⟨rfl, hb⟩
    | cons h hs =>
      rw [condition, condition]
      · rcases hchildren.ok_or_error with
          ⟨⟨parts, _⟩, ⟨_, _⟩, hx, hx', rfl, hb⟩ | ⟨e, hx, hx'⟩
        · rw [hx, hx']
          exact .ok ⟨rfl, hb⟩
        · rw [hx, hx']
          exact .error e
      · nofun
      · nofun

theorem conditions_agree (d : Dialect) (t : Table) {qs qs' : List Qualifier}
    (h : Qualifier.SameShapes qs qs') {b b' : Binder} (hb : b.SameNames b') :
    Agree SameText (conditions d t qs b) (conditions d t qs' b') := by
  cases h with
  | nil =>
    rw [conditions, conditions]
    exact .ok ⟨rfl, hb⟩
  | cons h hs =>
    rw [conditions, conditions]
    rcases (condition_agree d t h hb).ok_or_error with
      ⟨⟨f, b⟩, ⟨_, b'⟩, hx, hx', rfl, hb⟩ | ⟨e, hx, hx'⟩
    · rw [hx, hx']
      rcases (conditions_agree d t hs hb).ok_or_error with
        ⟨⟨fs, _⟩, ⟨_, _⟩, hy, hy', rfl, hb⟩ | ⟨e, hy, hy'⟩
      · simp only [hy, hy']
        exact .ok ⟨rfl, hb⟩
      · simp only [hy, hy']
        exact .error e
    · rw [hx, hx']
      exact .error e

end

theorem whereClause_agree (d : Dialect) (t : Table) {q q' : Option Qualifier}
    (h : Option.Rel Qualifier.SameShape q q') {b b' : Binder} (hb : b.SameNames b') :
    Agree SameText (whereClause d t q b) (whereClause d t q' b') := by
  cases h with
  | none => exact .ok ⟨rfl, hb⟩
  | some h =>
    refine (condition_agree d t h hb).map ?_
    rintro ⟨f, _⟩ ⟨_, _⟩ ⟨rfl, hb⟩
    exact ⟨rfl, hb⟩

/-- Values for the same columns. -/
abbrev SameColumns (values values' : List (String × Value)) : Prop :=
  values.map Prod.fst = values'.map Prod.fst

theorem bindAll_agree (d : Dialect) (t : Table) {values values' : List (String × Value)}
    (h : SameColumns values values') {b b' : Binder} (hb : b.SameNames b') :
    Agree SameText (bindAll d t values b) (bindAll d t values' b') := by
  induction values generalizing values' b b' with
  | nil =>
    obtain rfl : values' = [] := List.map_eq_nil_iff.mp h.symm
    exact .ok ⟨rfl, hb⟩
  | cons first rest ih =>
    obtain ⟨column, v⟩ := first
    obtain ⟨⟨column', v'⟩, rest', rfl, hcolumn, hrest⟩ := List.map_eq_cons_iff.mp h.symm
    obtain rfl : column' = column := hcolumn
    rw [bindAll, bindAll]
    rcases (Binder.bind_agree d t column' v v' hb).ok_or_error with
      ⟨⟨name, b⟩, ⟨_, b'⟩, hx, hx', rfl, hb⟩ | ⟨e, hx, hx'⟩
    · rw [hx, hx']
      rcases (ih hrest.symm hb).ok_or_error with
        ⟨⟨names, _⟩, ⟨_, _⟩, hy, hy', rfl, hb⟩ | ⟨e, hy, hy'⟩
      · simp only [hy, hy']
        exact .ok ⟨rfl, hb⟩
      · simp only [hy, hy']
        exact .error e
    · rw [hx, hx']
      exact .error e

/-! ### Statements -/

/-- What is asked of a database. -/
inductive Request where
  | condition (t : Table) (q : Qualifier)
  | select (f : Fetch)
  | insert (t : Table) (values : List (String × Value))
  | update (t : Table) (assignments : List (String × Value)) (q : Option Qualifier)
  | delete (t : Table) (q : Option Qualifier)

def Request.compile (d : Dialect) : Request → Except CompileError Command
  | condition t q => compileQualifier d t q
  | select f => compileSelect d f
  | insert t values => compileInsert d t values
  | update t assignments q => compileUpdate d t assignments q
  | delete t q => compileDelete d t q

/-- Requests that differ in the values they carry alone. -/
inductive Request.SameShape : Request → Request → Prop
  | condition (t : Table) {q q' : Qualifier} (h : q.SameShape q') :
    SameShape (.condition t q) (.condition t q')
  | select (t : Table) {q q' : Option Qualifier} (h : Option.Rel Qualifier.SameShape q q')
    (keys : List SortKey) (limit : Int) :
    SameShape (.select ⟨t, q, keys, limit⟩) (.select ⟨t, q', keys, limit⟩)
  | insert (t : Table) {values values' : List (String × Value)} (h : SameColumns values values') :
    SameShape (.insert t values) (.insert t values')
  | update (t : Table) {assignments assignments' : List (String × Value)}
    (h : SameColumns assignments assignments') {q q' : Option Qualifier}
    (hq : Option.Rel Qualifier.SameShape q q') :
    SameShape (.update t assignments q) (.update t assignments' q')
  | delete (t : Table) {q q' : Option Qualifier} (h : Option.Rel Qualifier.SameShape q q') :
    SameShape (.delete t q) (.delete t q')

/-- What a statement shows of itself where its values are hidden. -/
def Command.shown (c : Command) : String × List String := (c.sql, c.parameters.map (·.name))

/-- Statements that show the same. -/
abbrev SameShown (c c' : Command) : Prop := c.shown = c'.shown

theorem Command.sameShown (d : Dialect) (f : Fragment) {b b' : Binder} (hb : b.SameNames b') :
    SameShown ⟨d, f, b.parameters⟩ ⟨d, f, b'.parameters⟩ := by
  rw [SameShown, shown, shown, hb.parameters]
  rfl

theorem compileQualifier_agree (d : Dialect) (t : Table) {q q' : Qualifier} (h : q.SameShape q') :
    Agree SameShown (compileQualifier d t q) (compileQualifier d t q') := by
  refine (condition_agree d t h (.refl {})).map ?_
  rintro ⟨f, _⟩ ⟨_, _⟩ ⟨rfl, hb⟩
  exact Command.sameShown d f hb

theorem compileSelect_agree (d : Dialect) (t : Table) {q q' : Option Qualifier}
    (h : Option.Rel Qualifier.SameShape q q') (keys : List SortKey) (limit : Int) :
    Agree SameShown (compileSelect d ⟨t, q, keys, limit⟩)
      (compileSelect d ⟨t, q', keys, limit⟩) := by
  refine (whereClause_agree d t h (.refl {})).map ?_
  rintro ⟨f, _⟩ ⟨_, _⟩ ⟨rfl, hb⟩
  exact Command.sameShown d _ hb

theorem compileDelete_agree (d : Dialect) (t : Table) {q q' : Option Qualifier}
    (h : Option.Rel Qualifier.SameShape q q') :
    Agree SameShown (compileDelete d t q) (compileDelete d t q') := by
  refine (whereClause_agree d t h (.refl {})).map ?_
  rintro ⟨f, _⟩ ⟨_, _⟩ ⟨rfl, hb⟩
  exact Command.sameShown d _ hb

theorem SameColumns.isEmpty_eq {values values' : List (String × Value)}
    (h : SameColumns values values') : values.isEmpty = values'.isEmpty := by
  rw [← List.isEmpty_map, h, List.isEmpty_map]

theorem SameColumns.insertedValues (t : Table) {values values' : List (String × Value)}
    (h : SameColumns values values') :
    SameColumns (insertedValues t values) (insertedValues t values') := by
  have hkept : ∀ vs : List (String × Value), (Sql.insertedValues t vs).map Prod.fst =
      (vs.map Prod.fst).filter fun column => !((t.column? column).any (·.generated)) := by
    intro vs
    rw [List.filter_map]
    rfl
  rw [SameColumns, hkept, hkept, h]

/-- What is written for each column is the same. -/
theorem SameColumns.map_eq {β : Type} {values values' : List (String × Value)}
    (h : SameColumns values values') (f : String → β) :
    (values.map fun v => f v.1) = values'.map fun v => f v.1 := by
  have hf : ∀ vs : List (String × Value), (vs.map fun v => f v.1) = (vs.map Prod.fst).map f :=
    fun vs => by rw [List.map_map]; rfl
  rw [hf, hf, h]

theorem SameColumns.map_zip_eq {β : Type} {values values' : List (String × Value)}
    (h : SameColumns values values') (names : List String) (f : String → String → β) :
    ((values.zip names).map fun a => f a.1.1 a.2) =
      (values'.zip names).map fun a => f a.1.1 a.2 := by
  have hf : ∀ vs : List (String × Value), ((vs.zip names).map fun a => f a.1.1 a.2) =
      ((vs.map Prod.fst).zip names).map fun a => f a.1 a.2 := by
    intro vs
    rw [List.zip_map_left, List.map_map]
    rfl
  rw [hf, hf, h]

theorem compileInsert_agree (d : Dialect) (t : Table) {values values' : List (String × Value)}
    (h : SameColumns values values') :
    Agree SameShown (compileInsert d t values) (compileInsert d t values') := by
  rw [compileInsert, compileInsert]
  cases insertedKey? d t with
  | error e => exact .error e
  | ok key =>
    have hkept := h.insertedValues t
    dsimp only
    rw [hkept.isEmpty_eq, hkept.map_eq fun column => [Piece.identifier column]]
    rcases (bindAll_agree d t hkept (.refl {})).ok_or_error with
      ⟨⟨names, _⟩, ⟨_, _⟩, hx, hx', rfl, hb⟩ | ⟨e, hx, hx'⟩
    · simp only [hx, hx']
      split
      · exact .error _
      · exact .ok (Command.sameShown d _ hb)
    · rw [hx, hx']
      exact .error e

theorem compileUpdate_agree (d : Dialect) (t : Table) {values values' : List (String × Value)}
    (h : SameColumns values values') {q q' : Option Qualifier}
    (hq : Option.Rel Qualifier.SameShape q q') :
    Agree SameShown (compileUpdate d t values q) (compileUpdate d t values' q') := by
  rw [compileUpdate, compileUpdate, h.isEmpty_eq]
  split
  · exact .error _
  · rcases (bindAll_agree d t h (.refl {})).ok_or_error with
      ⟨⟨names, _⟩, ⟨_, _⟩, hx, hx', rfl, hb⟩ | ⟨e, hx, hx'⟩
    · simp only [hx, hx']
      rw [h.map_zip_eq names fun column n =>
        [Piece.identifier column, .keyword " = ", .parameter n]]
      refine (whereClause_agree d t hq hb).map ?_
      rintro ⟨f, _⟩ ⟨_, _⟩ ⟨rfl, hb⟩
      exact Command.sameShown d _ hb
    · rw [hx, hx']
      exact .error e

/-- Requests that differ in their values alone are compiled to statements that show the same, or
fail with the same error. -/
theorem compile_sameShape (d : Dialect) {r r' : Request} (h : r.SameShape r') :
    (r.compile d).map Command.shown = (r'.compile d).map Command.shown := by
  have hagree : Agree SameShown (r.compile d) (r'.compile d) := by
    cases h with
    | condition t h => exact compileQualifier_agree d t h
    | select t h keys limit => exact compileSelect_agree d t h keys limit
    | insert t h => exact compileInsert_agree d t h
    | update t h hq => exact compileUpdate_agree d t h hq
    | delete t h => exact compileDelete_agree d t h
  rcases hagree.ok_or_error with ⟨c, c', hc, hc', hshown⟩ | ⟨e, hc, hc'⟩
  · rw [hc, hc']
    exact congrArg Except.ok hshown
  · rw [hc, hc']

theorem compile_sameShape_update :
    let age : Table := ⟨"person", [⟨"age", .int64, none, true, false, false⟩]⟩
    let r : Request := .update age [("age", .int 7)] (some (.column "age" ⟨.equals, .text "8"⟩))
    let r' : Request := .update age [("age", .null)] (some (.column "age" ⟨.equals, .text "'"⟩))
    r.SameShape r' ∧ (r.compile (.generic false)).map Command.shown =
      (r'.compile (.generic false)).map Command.shown := by
  intro age r r'
  have hcolumns : SameColumns [("age", .int 7)] [("age", .null)] := rfl
  have hoperands : Predicate.SameShape ⟨.equals, .text "8"⟩ ⟨.equals, .text "'"⟩ :=
    ⟨rfl, fun _ => rfl⟩
  have hshape : r.SameShape r' := .update age hcolumns (.some (.column "age" hoperands))
  exact ⟨hshape, compile_sameShape (.generic false) hshape⟩

end Sql

end FilterLang
