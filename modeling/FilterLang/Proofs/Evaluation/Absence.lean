import FilterLang.Fetch.Basic
import FilterLang.Proofs.Fetch.StableSort

/-! Null and a relationship that is not there are one absence.

`Entity.Alike` relates entities that differ in how absence is written alone, at any depth. Each
reader of members takes the two ways for one: values (`Entity.Alike.value_eq`), paths
(`Entity.Alike.follow_eq`) and dotted sort keys (`SortKey.read_eq_of_alike`); all that is computed
from them agrees. Main statement: `eq_of_alike`. -/

namespace FilterLang

mutual

/-- Entities that differ in how absence is written alone. -/
inductive Entity.Alike : Entity → Entity → Prop
  | intro {e e' : Entity} (htype : e.typeName = e'.typeName)
    (hmember : ∀ name, Option.Rel Member.Alike (e.member? name) (e'.member? name)) :
    Entity.Alike e e'

/-- Members that differ so: null may stand for a relationship that is not there, and the other way
round. -/
inductive Member.Alike : Member → Member → Prop
  | value (v : Value) : Member.Alike (.value v) (.value v)
  | absent : Member.Alike .absent .absent
  | null_absent : Member.Alike (.value .null) .absent
  | absent_null : Member.Alike .absent (.value .null)
  | one {e e' : Entity} (h : Entity.Alike e e') : Member.Alike (.one e) (.one e')
  | many {es es' : List Entity} (h : List.Forall₂ Entity.Alike es es') :
    Member.Alike (.many es) (.many es')

end

namespace Entity

/-- Members are replaced in their places. -/
theorem Alike.mk (typeName : String) {members members' : List (String × Member)}
    (h : List.Forall₂ (fun m m' => m.1 = m'.1 ∧ m.2.Alike m'.2) members members') :
    (Entity.mk typeName members).Alike (.mk typeName members') := by
  refine .intro rfl fun name => ?_
  change Option.Rel Member.Alike (members.lookup name) (members'.lookup name)
  induction h with
  | nil => exact .none
  | @cons m m' ms ms' h _ ih =>
    obtain ⟨n, m⟩ := m
    obtain ⟨n', m'⟩ := m'
    obtain ⟨rfl, h⟩ := h
    rw [List.lookup_cons, List.lookup_cons]
    cases name == n with
    | true => exact .some h
    | false => exact ih

variable {e e' : Entity}

theorem Alike.typeName_eq (h : e.Alike e') : e.typeName = e'.typeName := by
  cases h with
  | intro htype hmember => exact htype

theorem Alike.member (h : e.Alike e') (name : String) :
    Option.Rel Member.Alike (e.member? name) (e'.member? name) := by
  cases h with
  | intro htype hmember => exact hmember name

theorem Alike.value_eq (h : e.Alike e') (name : String) : e.value name = e'.value name := by
  have hmember := h.member name
  rw [value, value, h.typeName_eq]
  revert hmember
  generalize e.member? name = m, e'.member? name = m'
  intro hmember
  cases hmember with
  | none => rfl
  | some hmember => cases hmember <;> rfl

theorem anyPasses_eq_of_forall₂ {α ε : Type} {test test' : α → Except ε Bool} {as as' : List α}
    (h : List.Forall₂ (fun a a' => test a = test' a') as as') :
    anyPasses test as = anyPasses test' as' := by
  induction h with
  | nil => rfl
  | cons h _ ih => rw [anyPasses, anyPasses, h, ih]

/-- A path leads to the same outcome, given tests that do not tell the ways of absence apart. -/
theorem Alike.follow_eq {test test' : Entity → Except EvaluationError Bool}
    (htest : ∀ e e', e.Alike e' → test e = test' e') (path : List String) (h : e.Alike e') :
    e.follow test path = e'.follow test' path := by
  induction path generalizing e e' with
  | nil => exact htest e e' h
  | cons name path ih =>
    have hmember := h.member name
    rw [follow, follow, h.typeName_eq]
    revert hmember
    generalize e.member? name = m, e'.member? name = m'
    intro hmember
    cases hmember with
    | none => rfl
    | some hmember =>
      cases hmember with
      | value v => cases v <;> rfl
      | absent => rfl
      | null_absent => rfl
      | absent_null => rfl
      | one h => exact ih h
      | many hs => exact anyPasses_eq_of_forall₂ (hs.imp fun _ _ => ih)

end Entity

namespace Qualifier

variable [Wildcard.Engine]

mutual

theorem evaluate_eq_of_alike (q : Qualifier) {e e' : Entity} (h : e.Alike e') :
    q.evaluate e = q.evaluate e' := by
  match q with
  | column name p => rw [evaluate, evaluate]
  | property name p => rw [evaluate, evaluate, h.value_eq]
  | path elements target =>
    rw [evaluate, evaluate]
    exact h.follow_eq (fun _ _ h => target.evaluate_eq_of_alike h) elements
  | clause .and children =>
    rw [evaluate, evaluate]
    exact allHold_eq_of_alike children h
  | clause .or children =>
    rw [evaluate, evaluate, anyHolds_eq_of_alike children h]

theorem allHold_eq_of_alike (qs : List Qualifier) {e e' : Entity} (h : e.Alike e') :
    allHold qs e = allHold qs e' := by
  match qs with
  | [] => rfl
  | q :: qs => rw [allHold, allHold, q.evaluate_eq_of_alike h, allHold_eq_of_alike qs h]

theorem anyHolds_eq_of_alike (qs : List Qualifier) {e e' : Entity} (h : e.Alike e') :
    anyHolds qs e = anyHolds qs e' := by
  match qs with
  | [] => rfl
  | q :: qs => rw [anyHolds, anyHolds, q.evaluate_eq_of_alike h, anyHolds_eq_of_alike qs h]

end

variable {α : Type} {entity entity' : α → Entity} {rows : List α}

theorem filter_eq_of_alike (q : Qualifier) (h : ∀ a ∈ rows, (entity a).Alike (entity' a)) :
    q.filter entity rows = q.filter entity' rows := by
  induction rows with
  | nil => rfl
  | cons a rows ih =>
    obtain ⟨ha, hrows⟩ := List.forall_mem_cons.mp h
    rw [filter, filter, q.evaluate_eq_of_alike ha, ih hrows]

/-- Filtering leaves rows out. -/
theorem sublist_of_filter {q : Qualifier} {kept : List α} (h : q.filter entity rows = .ok kept) :
    kept.Sublist rows := by
  induction rows generalizing kept with
  | nil =>
    cases h
    exact .slnil
  | cons a rows ih =>
    rw [filter] at h
    split at h
    · cases hrest : q.filter entity rows with
      | error err => rw [hrest] at h; cases h
      | ok others =>
        rw [hrest] at h
        cases h
        exact (ih hrest).cons_cons a
    · exact (ih h).cons a
    · cases h

end Qualifier

namespace SortKey

variable {e e' : Entity}

theorem read_eq_of_alike (h : e.Alike e') (names : List String) : read e names = read e' names := by
  induction names generalizing e e' with
  | nil => exact h.value_eq ""
  | cons name names ih =>
    cases names with
    | nil => exact h.value_eq name
    | cons name' names =>
      have hmember := h.member name
      have hne := List.cons_ne_nil name' names
      rw [read_cons name hne, read_cons name hne, h.value_eq name]
      revert hmember
      generalize e.member? name = m, e'.member? name = m'
      intro hmember
      cases hmember with
      | none => rfl
      | some hmember =>
        cases hmember with
        | one h => exact ih h
        | _ => rfl

theorem values_eq_of_alike (h : e.Alike e') (keys : List SortKey) :
    values keys e = values keys e' := by
  induction keys with
  | nil => rfl
  | cons k keys ih => rw [values, values, ih, value, value, read_eq_of_alike h]

variable {α : Type} {entity entity' : α → Entity} {rows : List α}

theorem decorate_eq_of_alike (keys : List SortKey)
    (h : ∀ a ∈ rows, (entity a).Alike (entity' a)) :
    decorate keys entity rows = decorate keys entity' rows := by
  induction rows with
  | nil => rfl
  | cons a rows ih =>
    obtain ⟨ha, hrows⟩ := List.forall_mem_cons.mp h
    rw [decorate, decorate, values_eq_of_alike ha, ih hrows]

end SortKey

variable {α : Type} {entity entity' : α → Entity} {rows : List α}

theorem sortRows_eq_of_alike (keys : List SortKey)
    (h : ∀ a ∈ rows, (entity a).Alike (entity' a)) :
    sortRows keys entity rows = sortRows keys entity' rows := by
  rw [sortRows, sortRows, SortKey.decorate_eq_of_alike keys h]

theorem run_sortInPlace_eq_of_alike (keys : List SortKey)
    (h : ∀ a ∈ rows, (entity a).Alike (entity' a)) :
    (sortInPlace keys entity).run rows = (sortInPlace keys entity').run rows := by
  rw [run_sortInPlace_eq, run_sortInPlace_eq, sortRows_eq_of_alike keys h]

theorem Fetch.apply_eq_of_alike [Wildcard.Engine] (f : Fetch) (h : ∀ a ∈ rows, (entity a).Alike (entity' a)) :
    f.apply entity rows = f.apply entity' rows := by
  rw [apply, apply]
  cases f.qualifier with
  | none => simp only [bind, Except.bind, sortRows_eq_of_alike f.sortKeys h]
  | some q =>
    simp only [bind, Except.bind, q.filter_eq_of_alike h]
    cases hkept : q.filter entity' rows with
    | error err => rfl
    | ok kept =>
      have hrows := (Qualifier.sublist_of_filter hkept).subset
      simp only [sortRows_eq_of_alike f.sortKeys fun a ha => h a (hrows ha)]

/-- How absence is written in the objects changes nothing: not whether a filter holds or why it
fails, not which rows it keeps, not how rows are sorted and not what a fetch gives. -/
theorem eq_of_alike [Wildcard.Engine] (h : ∀ a ∈ rows, (entity a).Alike (entity' a)) (q : Qualifier)
    (keys : List SortKey) (f : Fetch) :
    (∀ a ∈ rows, q.evaluate (entity a) = q.evaluate (entity' a)) ∧
      q.filter entity rows = q.filter entity' rows ∧
      (sortInPlace keys entity).run rows = (sortInPlace keys entity').run rows ∧
      f.apply entity rows = f.apply entity' rows :=
  ⟨fun a ha => q.evaluate_eq_of_alike (h a ha), q.filter_eq_of_alike h,
    run_sortInPlace_eq_of_alike keys h, f.apply_eq_of_alike h⟩

theorem eq_of_alike_nested :
    let _ : Wildcard.Engine := ⟨fun _ => none⟩
    let order (owner price : Member) : Entity :=
      .mk "order" [("owner", owner), ("items", .many [.mk "item" [("price", price)]])]
    let rows : List (Entity × Entity) :=
      [(order (.value .null) .absent, order .absent (.value .null)),
        (order .absent .absent, order .absent .absent)]
    let q : Qualifier := .clause .or
      [.path ["owner"] (.property "name" ⟨.equals, .null⟩),
        .path ["items"] (.property "price" ⟨.equals, .null⟩)]
    let keys := [SortKey.descending "owner.name"]
    let f : Fetch := ⟨⟨"orders", []⟩, some q, keys, 1⟩
    (∀ a ∈ rows, a.1.Alike a.2) ∧ (∀ a ∈ rows, q.evaluate a.1 = q.evaluate a.2) ∧
      q.filter Prod.fst rows = q.filter Prod.snd rows ∧
      (sortInPlace keys Prod.fst).run rows = (sortInPlace keys Prod.snd).run rows ∧
      f.apply Prod.fst rows = f.apply Prod.snd rows := by
  intro _ order rows q keys f
  have horder : ∀ {owner owner' price price' : Member}, owner.Alike owner' → price.Alike price' →
      (order owner price).Alike (order owner' price') := by
    intro owner owner' price price' howner hprice
    have hitem : (Entity.mk "item" [("price", price)]).Alike (.mk "item" [("price", price')]) :=
      .mk "item" (.cons ⟨rfl, hprice⟩ .nil)
    exact .mk "order" (.cons ⟨rfl, howner⟩ (.cons ⟨rfl, .many (.cons hitem .nil)⟩ .nil))
  have h : ∀ a ∈ rows, a.1.Alike a.2 := by
    refine List.forall_mem_cons.mpr ⟨horder .null_absent .absent_null, ?_⟩
    exact List.forall_mem_singleton.mpr (horder .absent .absent)
  exact ⟨h, eq_of_alike h q keys f⟩

end FilterLang
