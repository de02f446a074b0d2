import FilterLang.Proofs.Fetch.KeyReading

/-! Dotted sort keys beside the paths that they are written like.

Where a path comes to one object, `Entity.toOne` gives it. A path is evaluated there
(`Entity.follow_eq_toOne`), and a dotted key is read there (`SortKey.read_eq_toOne`) except behind a
value other than null: a path fails at such a value, and a key takes it for its own. Main statement:
`SortKey.value_dotted_eq_iff`. -/

namespace FilterLang

namespace Entity

/-- The object that a path leads to through relationships to one. Null and an absent relationship
lead nowhere; nothing else leads on. -/
def toOne : List String → Entity → Except EvaluationError (Option Entity)
  | [], e => .ok (some e)
  | name :: path, e =>
    match e.member? name with
    | none => .error (.unknownMember name e.typeName)
    | some (.value .null) | some .absent => .ok none
    | some (.value _) => .error (.notTraversable name e.typeName)
    | some (.one target) => target.toOne path
    | some (.many _) => .error (.notAValue name e.typeName)

variable {path : List String} {e : Entity}

/-- A path is followed to the object that it leads to, unless it comes to a collection. -/
theorem follow_eq_toOne (test : Entity → Except EvaluationError Bool)
    (h : ∀ name typeName, e.toOne path ≠ .error (.notAValue name typeName)) :
    e.follow test path = (e.toOne path).bind (Option.elim · (.ok false) test) := by
  induction path generalizing e with
  | nil => rfl
  | cons name path ih =>
    rw [follow, toOne]
    rw [toOne] at h
    cases hm : e.member? name with
    | none => rfl
    | some m =>
      rw [hm] at h
      cases m with
      | value v => cases v <;> rfl
      | absent => rfl
      | one target => exact ih h
      | many items => exact absurd rfl (h name e.typeName)

theorem leadsTo_of_toOne {target : Entity} (h : e.toOne path = .ok (some target)) :
    e.LeadsTo path target := by
  induction path generalizing e with
  | nil =>
    cases h
    exact .here _
  | cons n path ih =>
    rw [toOne] at h
    cases hm : e.member? n with
    | none => rw [hm] at h; cases h
    | some m =>
      rw [hm] at h
      cases m with
      | value v => cases v <;> cases h
      | absent => cases h
      | one next => exact .through hm (ih h)
      | many items => cases h

/-- A path that cannot be traversed has a value other than null on it. -/
theorem exists_scalar_of_toOne_eq {name typeName : String}
    (h : e.toOne path = .error (.notTraversable name typeName)) :
    ∃ before after target v, path = before ++ name :: after ∧
      e.toOne before = .ok (some target) ∧ target.typeName = typeName ∧
      target.member? name = some (.value v) ∧ v ≠ .null := by
  induction path generalizing e with
  | nil => cases h
  | cons n path ih =>
    rw [toOne] at h
    split at h
    · cases h
    · cases h
    · cases h
    · rename_i v hv hm
      cases h
      refine ⟨[], path, e, v, rfl, rfl, rfl, hm, ?_⟩
      rintro rfl
      exact hv rfl
    · rename_i target hm
      obtain ⟨before, after, target', v, rfl, hbefore, htype, hv⟩ := ih h
      refine ⟨n :: before, after, target', v, rfl, ?_, htype, hv⟩
      rw [toOne, hm]
      exact hbefore
    · cases h

end Entity

namespace SortKey

variable {path names : List String} {name : String} {e target : Entity}

/-- A value in the place of a relationship is read, whatever names follow it. -/
theorem read_append_cons {n : String} {v : Value} (h : e.toOne path = .ok (some target))
    (hm : target.member? n = some (.value v)) (names : List String) :
    read e (path ++ n :: names) = .ok v := by
  have hend : EndsAt target n names (.ok v) := .value hm
  rw [read_append (Entity.leadsTo_of_toOne h) (List.cons_ne_nil n names), hend.read_eq]

/-- A key is the value of a member of the object that the names before lead to, unless there is
a value in the place of a relationship. -/
theorem read_eq_toOne (h : ∀ n typeName, e.toOne path ≠ .error (.notTraversable n typeName)) :
    read e (path ++ [name]) = (e.toOne path).bind (Option.elim · (.ok .null) (·.value name)) := by
  induction path generalizing e with
  | nil => rfl
  | cons n path ih =>
    have hne : path ++ [name] ≠ [] := by simp
    rw [List.cons_append, read_cons n hne, Entity.toOne, Entity.value]
    rw [Entity.toOne] at h
    cases hm : e.member? n with
    | none => rfl
    | some m =>
      rw [hm] at h
      cases m with
      | value v =>
        cases v with
        | null => rfl
        | _ => exact absurd rfl (h n e.typeName)
      | absent => rfl
      | one target => exact ih h
      | many items => rfl

theorem value_dotted_of_scalar {before after : List String} {n : String} {v : Value}
    (hdots : ∀ m ∈ before ++ n :: after, '.' ∉ m.toList)
    (h : e.toOne before = .ok (some target)) (hm : target.member? n = some (.value v))
    (d : Direction) :
    let k : SortKey := ⟨Qualifier.dotted (before ++ n :: after), d⟩
    k.value e = .ok (k.folded v) := by
  intro k
  rw [value_dotted (by simp) hdots d e, read_append_cons h hm]
  rfl

/-- A dotted key reads what the path of its names leads to if no value other than null is on the
path. Otherwise it reads that value, as the key that ends there does, where the path fails. A path
leads to the same object as the key, unless it comes to a collection. -/
theorem value_dotted_eq_iff [Wildcard.Engine] {elements : List String} {name : String}
    (hdots : ∀ n ∈ elements ++ [name], '.' ∉ n.toList) (d : Direction) (e : Entity) :
    let key (names : List String) : SortKey := ⟨Qualifier.dotted names, d⟩
    let k := key (elements ++ [name])
    (k.value e =
          ((e.toOne elements).bind (Option.elim · (.ok .null) (·.value name))).map k.folded ↔
        ∀ n typeName, e.toOne elements ≠ .error (.notTraversable n typeName)) ∧
      (∀ n typeName, e.toOne elements = .error (.notTraversable n typeName) →
        ∃ before after target v, elements = before ++ n :: after ∧
          e.toOne before = .ok (some target) ∧ target.typeName = typeName ∧
          target.member? n = some (.value v) ∧ v ≠ .null ∧
          k.value e = .ok (k.folded v) ∧ (key (before ++ [n])).value e = k.value e) ∧
      ∀ q : Qualifier, (∀ n typeName, e.toOne elements ≠ .error (.notAValue n typeName)) →
        (Qualifier.path elements q).evaluate e =
          (e.toOne elements).bind (Option.elim · (.ok false) q.evaluate) := by
  intro key k
  refine ⟨⟨fun h n typeName hto => ?_, fun h => ?_⟩, fun n typeName hto => ?_, fun q h => ?_⟩
  · obtain ⟨before, after, target, v, rfl, hbefore, -, hm, -⟩ :=
      Entity.exists_scalar_of_toOne_eq hto
    simp only [k, key, hto, List.append_assoc, List.cons_append] at h hdots
    rw [value_dotted_of_scalar hdots hbefore hm d] at h
    cases h
  · rw [value_dotted (by simp) hdots d e, read_eq_toOne h]
  · obtain ⟨before, after, target, v, rfl, hbefore, htype, hm, hv⟩ :=
      Entity.exists_scalar_of_toOne_eq hto
    have hprefix : ∀ m ∈ before ++ [n], '.' ∉ m.toList := fun m hmem =>
      hdots m (List.mem_append_left [name] (List.append_cons before n after ▸
        List.mem_append_left after hmem))
    simp only [k, key, List.append_assoc, List.cons_append] at hdots ⊢
    have hk := value_dotted_of_scalar hdots hbefore hm d
    exact ⟨before, after, target, v, rfl, hbefore, htype, hm, hv, hk,
      (value_dotted_of_scalar hprefix hbefore hm d).trans hk.symm⟩
  · rw [Qualifier.evaluate]
    exact e.follow_eq_toOne q.evaluate h

theorem value_dotted_eq_iff_owner :
    let _ : Wildcard.Engine := ⟨fun _ => none⟩
    let e : Entity :=
      .mk "film" [("owner", .one (.mk "person" [("name", .value (.text "Ann"))]))]
    (∀ n ∈ ["owner"] ++ ["name"], '.' ∉ n.toList) ∧
      (⟨Qualifier.dotted (["owner"] ++ ["name"]), .ascendingCaseInsensitive⟩ : SortKey).value e =
        .ok (.text "ANN") := by
  intro _ e
  have hdots : ∀ n ∈ ["owner"] ++ ["name"], '.' ∉ n.toList := by decide
  have h := (value_dotted_eq_iff hdots .ascendingCaseInsensitive e).1.mpr nofun
  exact ⟨hdots, h.trans (by decide)⟩

/-- Where the path fails, sorting reads the number on it. -/
theorem value_dotted_scalar :
    let _ : Wildcard.Engine := ⟨fun _ => none⟩
    let row (x : Int64) : Entity := .mk "T" [("x", .value (.int x))]
    let k : SortKey := ⟨Qualifier.dotted (["x"] ++ ["y"]), .ascending⟩
    (Qualifier.path ["x"] (.property "y" ⟨.equals, .null⟩)).evaluate (row 2) =
        .error (.notTraversable "x" "T") ∧
      k.value (row 2) = .ok (.int 2) ∧
      decorate [k] row [2, 1] = .ok [([.int 2], 2), ([.int 1], 1)] := by
  decide

end SortKey

end FilterLang
