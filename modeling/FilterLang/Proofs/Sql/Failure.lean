import Mathlib.Data.List.Forall2
import FilterLang.Proofs.Sql.Splicing

/-! When a filter has no condition in a dialect, and why.

A node fails by itself: a path always, and a leaf whose operand is bound where the table describes
its column with a type that the dialect does not map (`Fails`). Values that the table does not
describe never fail. Compiling stops at the first node that fails, each node before what is below it
(`error?_condition`), and otherwise each bound leaf has a parameter with a type of the dialect
(`condition_adds`). Main statement: `compileQualifier_eq_error_iff`. -/

namespace FilterLang

/-- The first column of a table that has a name, in any ASCII case. -/
def Table.Describes (t : Table) (name : String) (c : Column) : Prop :=
  Text.sameWord c.name name = true ∧ ∃ before after, t.columns = before ++ c :: after ∧
    ∀ c' ∈ before, Text.sameWord c'.name name = false

theorem Table.column?_eq_some_iff {t : Table} {name : String} {c : Column} :
    t.column? name = some c ↔ t.Describes name c := by
  simp only [column?, List.find?_eq_some_iff_append, Bool.not_eq_true', Describes]

namespace Sql

/-- A dialect has a native type for a logical type. -/
def Dialect.Maps (d : Dialect) (type : LogicalType) : Prop :=
  ∃ native, (type, native) ∈ d.typeMap.entries

theorem Dialect.isMapped_nativeType_iff {d : Dialect} {type : LogicalType} :
    (d.nativeType type).isMapped = true ↔ d.Maps type := by
  have hmaps : d.Maps type ↔ (d.typeMap.entries.lookup type).isSome = true := by
    rw [List.lookup_isSome_iff]
    constructor
    · rintro ⟨native, h⟩
      exact ⟨_, h, beq_self_eq_true type⟩
    · rintro ⟨⟨type', native⟩, h, htype⟩
      exact ⟨native, eq_of_beq htype ▸ h⟩
  rw [hmaps, nativeType, TypeMap.get]
  cases d.typeMap.entries.lookup type <;> simp

/-- A node for which there is no condition, and why. -/
inductive Fails (d : Dialect) (t : Table) : Qualifier.Visit → CompileError → Prop
  | path (elements : List String) :
    Fails d t (.path elements) (.pathNotCompilable (Qualifier.dotted elements))
  | leaf {node : Qualifier.Visit} {name : String} {p : Predicate} {c : Column}
    (hleaf : node.leaf? = some (name, p)) (hbound : p.isBound = true)
    (hcolumn : t.Describes name c) (htype : ¬d.Maps c.type) :
    Fails d t node (.unmappableType d.name name c.type)

/-- The first of nodes that fails, fails with an error. -/
def FirstFails (d : Dialect) (t : Table) (nodes : List Qualifier.Visit) (e : CompileError) : Prop :=
  ∃ before node after, nodes = before ++ node :: after ∧ Fails d t node e ∧
    ∀ node' ∈ before, ∀ e', ¬Fails d t node' e'

/-- A parameter bound for a leaf: it has a type of the dialect, or it has none and is null and of a
column that the table does not describe. -/
structure IsBoundFor (d : Dialect) (t : Table) (leaf : String × Predicate) (p : Parameter) :
    Prop where
  value : p.value = leafValue t leaf.1 leaf.2
  nativeType : (∃ type, d.Maps type ∧ p.nativeType = some (d.nativeType type)) ∨
    p.nativeType = none ∧ p.value = .null ∧ ∀ c, ¬t.Describes leaf.1 c

/-- The error of a result that is one. -/
def error? {ε α : Type} : Except ε α → Option ε
  | .ok _ => none
  | .error e => some e

theorem error?_eq_some_iff {ε α : Type} {x : Except ε α} {e : ε} :
    error? x = some e ↔ x = .error e := by
  cases x <;> simp [error?]

theorem error?_eq_none_iff {ε α : Type} {x : Except ε α} :
    error? x = none ↔ ∃ a, x = .ok a := by
  cases x <;> simp [error?]

theorem error?_map {ε α β : Type} (f : α → β) (x : Except ε α) : error? (x.map f) = error? x := by
  cases x <;> rfl

theorem map_eq_error_iff {ε α β : Type} {f : α → β} {x : Except ε α} {e : ε} :
    x.map f = .error e ↔ x = .error e := by
  rw [← error?_eq_some_iff, error?_map, error?_eq_some_iff]

/-- The error of binding for a column. -/
def unmapped? (d : Dialect) (t : Table) (name : String) : Option CompileError :=
  (t.column? name).bind fun c =>
    if (d.nativeType c.type).isMapped then none else some (.unmappableType d.name name c.type)

/-- The error of a node. -/
def failure? (d : Dialect) (t : Table) : Qualifier.Visit → Option CompileError
  | .path elements => some (.pathNotCompilable (Qualifier.dotted elements))
  | .column name p | .property name p => if p.isBound then unmapped? d t name else none
  | .clause _ _ => none

variable {d : Dialect} {t : Table} {b b' : Binder}

theorem unmapped?_eq_some_iff {name : String} {e : CompileError} :
    unmapped? d t name = some e ↔
      ∃ c, t.Describes name c ∧ ¬d.Maps c.type ∧ e = .unmappableType d.name name c.type := by
  simp only [unmapped?, Option.bind_eq_some_iff, Table.column?_eq_some_iff,
    ← Dialect.isMapped_nativeType_iff]
  refine exists_congr fun c => and_congr_right fun _ => ?_
  rw [Option.ite_none_left_eq_some, Option.some_inj]
  exact and_congr_right' eq_comm

theorem failure?_eq_some_iff {node : Qualifier.Visit} {e : CompileError} :
    failure? d t node = some e ↔ Fails d t node e := by
  have hleaf : ∀ {node : Qualifier.Visit} {name : String} {p : Predicate},
      node.leaf? = some (name, p) →
        ((if p.isBound then unmapped? d t name else none) = some e ↔ Fails d t node e) := by
    intro node name p hnode
    rw [Option.ite_none_right_eq_some, unmapped?_eq_some_iff]
    constructor
    · rintro ⟨hbound, c, hcolumn, htype, rfl⟩
      exact .leaf hnode hbound hcolumn htype
    · intro h
      cases h with
      | path elements => cases hnode
      | leaf hnode' hbound hcolumn htype =>
        rw [hnode] at hnode'
        cases hnode'
        exact ⟨hbound, _, hcolumn, htype, rfl⟩
  cases node with
  | column name p => exact hleaf rfl
  | property name p => exact hleaf rfl
  | path elements =>
    rw [failure?, Option.some_inj]
    constructor
    · rintro rfl
      exact .path elements
    · intro h
      cases h with
      | path => rfl
      | leaf hnode => cases hnode
  | clause c n =>
    constructor
    · nofun
    · intro h
      cases h with
      | leaf hnode => cases hnode

theorem findSome?_failure?_eq_some_iff {nodes : List Qualifier.Visit} {e : CompileError} :
    nodes.findSome? (failure? d t) = some e ↔ FirstFails d t nodes e := by
  simp only [List.findSome?_eq_some_iff, failure?_eq_some_iff, Option.eq_none_iff_forall_ne_some,
    ne_eq, FirstFails]

theorem error?_boundNativeType (d : Dialect) (t : Table) (name : String) (v : Value) :
    error? (boundNativeType d t name v) = unmapped? d t name := by
  rw [unmapped?]
  cases hcolumn : t.column? name with
  | none =>
    obtain ⟨type, htype⟩ := boundNativeType_ok_of_column?_eq_none d hcolumn v
    rw [htype]
    rfl
  | some c =>
    rw [boundNativeType, boundType?, hcolumn, Option.bind_some]
    dsimp only
    split <;> rfl

theorem error?_bind (name : String) (v : Value) (b : Binder) :
    error? (b.bind d t name v) = unmapped? d t name := by
  rw [← error?_boundNativeType d t name v, Binder.bind]
  cases boundNativeType d t name v <;> rfl

theorem error?_comparison (name : String) (p : Predicate) (b : Binder) :
    error? (comparison d t name p b) = if p.isBound then unmapped? d t name else none := by
  obtain ⟨c, v⟩ := p
  by_cases hlike : c = .like
  · subst hlike
    rw [comparison_like, error?_map, error?_bind]
    rfl
  by_cases hnull : (c = .equals ∨ c = .notEqual) ∧ v.isNull = true
  · obtain ⟨hc, hv⟩ := hnull
    obtain rfl := Value.eq_null_of_isNull hv
    rcases hc with rfl | rfl <;> rfl
  · have hv : c = .equals ∨ c = .notEqual → v.isNull = false := fun hc =>
      Bool.eq_false_iff.mpr fun hv => hnull ⟨hc, hv⟩
    have hbound : (Predicate.mk c v).isBound = true := by
      rw [Predicate.isBound]
      · rintro ⟨⟩
        exact hnull ⟨.inl rfl, rfl⟩
      · rintro ⟨⟩
        exact hnull ⟨.inr rfl, rfl⟩
    rw [comparison_bound d t name hlike hv, error?_map, error?_bind, hbound, if_pos rfl]

mutual

/-- Compiling a filter stops at the first of its nodes that fails. -/
theorem error?_condition (q : Qualifier) (b : Binder) :
    error? (condition d t q b) = q.visits.findSome? (failure? d t) := by
  match q with
  | .column name p | .property name p =>
    rw [condition, error?_comparison, Qualifier.visits, List.findSome?_singleton, failure?]
  | .path elements target => rfl
  | .clause c [] => rfl
  | .clause c (q :: rest) =>
    rw [Qualifier.visits, List.findSome?_cons_of_isNone rfl, ← error?_conditions (q :: rest) b,
      condition]
    · cases conditions d t (q :: rest) b <;> rfl
    · nofun

theorem error?_conditions (qs : List Qualifier) (b : Binder) :
    error? (conditions d t qs b) = (Qualifier.visitsAll qs).findSome? (failure? d t) := by
  match qs with
  | [] => rfl
  | q :: rest =>
    rw [Qualifier.visitsAll, List.findSome?_append, ← error?_condition q b, conditions]
    cases condition d t q b with
    | error e => rfl
    | ok result =>
      obtain ⟨f, b⟩ := result
      rw [← error?_conditions rest b]
      cases hrest : conditions d t rest b <;> simp [hrest, error?]

end

/-- A value is bound with a type of the dialect, or with none where nothing tells one. -/
theorem boundNativeType_ok {name : String} {v : Value} {type : Option NativeType}
    (h : boundNativeType d t name v = .ok type) :
    (∃ type', d.Maps type' ∧ type = some (d.nativeType type')) ∨
      type = none ∧ v = .null ∧ ∀ c, ¬t.Describes name c := by
  rw [boundNativeType] at h
  split at h
  · rename_i htype
    cases h
    rw [boundType?] at htype
    split at htype
    · cases htype
    · rename_i hcolumn
      refine .inr ⟨rfl, ?_, fun c hc => ?_⟩
      · cases v with
        | null => rfl
        | _ => cases htype
      · rw [Table.column?_eq_some_iff.mpr hc] at hcolumn
        cases hcolumn
  · rename_i type' _
    split at h
    · rename_i hmapped
      cases h
      exact .inl ⟨type', Dialect.isMapped_nativeType_iff.mp hmapped, rfl⟩
    · cases h

/-- The second binder is the first with parameters behind that are bound for leaves. -/
def Adds (d : Dialect) (t : Table) (leaves : List (String × Predicate)) (b b' : Binder) : Prop :=
  ∃ parameters, b'.parameters = b.parameters ++ parameters ∧
    List.Forall₂ (IsBoundFor d t) (leaves.filter (·.2.isBound)) parameters

theorem Adds.nil (b : Binder) : Adds d t [] b b := ⟨[], (List.append_nil _).symm, .nil⟩

theorem Adds.append {leaves leaves' : List (String × Predicate)} {b b' b'' : Binder}
    (h : Adds d t leaves b b') (h' : Adds d t leaves' b' b'') :
    Adds d t (leaves ++ leaves') b b'' := by
  obtain ⟨ps, hps, hleaves⟩ := h
  obtain ⟨ps', hps', hleaves'⟩ := h'
  refine ⟨ps ++ ps', by rw [hps', hps, List.append_assoc], ?_⟩
  rw [List.filter_append]
  exact List.rel_append hleaves hleaves'

theorem comparison_adds {name : String} {p : Predicate} {f : Fragment}
    (h : comparison d t name p b = .ok (f, b')) : Adds d t [(name, p)] b b' := by
  rcases comparison_ok h with ⟨rfl, -, rfl⟩ | ⟨rfl, -, rfl⟩ | ⟨hbound, _, hbind, -⟩
  · exact .nil b'
  · exact .nil b'
  · obtain ⟨type, htype, -, rfl⟩ := Binder.bind_ok hbind
    have hleaf : [(name, p)].filter (·.2.isBound) = [(name, p)] :=
      List.filter_eq_self.mpr (List.forall_mem_singleton.mpr hbound)
    refine ⟨_, rfl, ?_⟩
    rw [hleaf]
    exact .cons ⟨rfl, boundNativeType_ok htype⟩ .nil

mutual

/-- What a condition binds, it binds for the leaves in their order. -/
theorem condition_adds {q : Qualifier} {f : Fragment} {b b' : Binder}
    (h : condition d t q b = .ok (f, b')) : Adds d t q.leaves b b' := by
  match q with
  | .column name p | .property name p =>
    rw [condition] at h
    exact comparison_adds h
  | .path elements target => cases h
  | .clause c [] =>
    rw [condition] at h
    cases h
    exact .nil b
  | .clause c (q :: rest) =>
    rw [condition] at h
    · split at h
      · rename_i hparts
        cases h
        rw [Qualifier.leaves_clause]
        exact conditions_adds hparts
      · cases h
    · nofun

theorem conditions_adds {qs : List Qualifier} {fs : List Fragment} {b b' : Binder}
    (h : conditions d t qs b = .ok (fs, b')) : Adds d t (qs.flatMap Qualifier.leaves) b b' := by
  match qs with
  | [] =>
    rw [conditions] at h
    cases h
    exact .nil b
  | q :: rest =>
    obtain ⟨f, b₁, fs', hfirst, hrest, rfl⟩ := conditions_cons_ok h
    rw [List.flatMap_cons]
    exact (condition_adds hfirst).append (conditions_adds hrest)

end

/-- A filter has no condition exactly if a node of it fails, and the error is that of the first one,
each node before what is below it and children from left to right. A condition has one parameter for
each bound leaf, in order, with a type of the dialect or, for null alone, with none. -/
theorem compileQualifier_eq_error_iff (d : Dialect) (t : Table) (q : Qualifier) :
    (∀ e, compileQualifier d t q = .error e ↔ FirstFails d t q.visits e) ∧
      ((∃ e, compileQualifier d t q = .error e) ↔ ∃ node ∈ q.visits, ∃ e, Fails d t node e) ∧
      ∀ c, compileQualifier d t q = .ok c →
        List.Forall₂ (IsBoundFor d t) (q.leaves.filter (·.2.isBound)) c.parameters := by
  have herror : error? (compileQualifier d t q) = q.visits.findSome? (failure? d t) := by
    rw [compileQualifier, error?_map, error?_condition]
  refine ⟨fun e => ?_, ?_, fun c hc => ?_⟩
  · rw [← error?_eq_some_iff, herror, findSome?_failure?_eq_some_iff]
  · simp only [← error?_eq_some_iff, herror, ← Option.isSome_iff_exists,
      List.findSome?_isSome_iff]
    simp only [Option.isSome_iff_exists, failure?_eq_some_iff]
  · obtain ⟨⟨f, b⟩, hcondition, rfl⟩ := exists_of_map_eq_ok hc
    obtain ⟨parameters, hparameters, hleaves⟩ := condition_adds hcondition
    obtain rfl : b.parameters = parameters := hparameters
    exact hleaves

/-- A length is not compared in a dialect without intervals, except with null, and is in another. -/
theorem compileQualifier_eq_error_iff_interval :
    let t : Table := ⟨"film", [⟨"Length", .interval, none, true, false, false⟩]⟩
    let length (c : Comparison) (v : Value) : Qualifier := .column "length" ⟨c, v⟩
    let q : Qualifier := .clause .and
      [length .notEqual .null, .clause .or
        [.property "title" ⟨.like, .null⟩, length .lessThan (.text "02:01:00")]]
    FirstFails (.generic false) t q.visits (.unmappableType "generic" "length" .interval) ∧
      ∃ c, compileQualifier (.postgres false) t q = .ok c ∧
        List.Forall₂ (IsBoundFor (.postgres false) t) (q.leaves.filter (·.2.isBound))
          c.parameters := by
  intro t length q
  obtain ⟨herror, -, -⟩ := compileQualifier_eq_error_iff (.generic false) t q
  obtain ⟨-, -, hparameters⟩ := compileQualifier_eq_error_iff (.postgres false) t q
  exact ⟨(herror _).mp rfl, _, rfl, hparameters _ rfl⟩

end Sql

end FilterLang
