import Mathlib.Data.List.Forall2
import FilterLang.Proofs.Fetch.KeyReading
import FilterLang.Proofs.Value.SortOrder

/-! Orders of rows that their keys allow.

What the keys give for a row is described by itself (`SortKey.Gives`). Rows carry their positions
(`SortKey.IsStableOrder`), so that rows which no key tells apart can be required to keep their
order; such a list is determined by the rows (`IsStableOrder.unique`). The keys of a column that
lacks one of the three zeros lie in one line, and so do the lists of keys (`exists_line`). -/

namespace FilterLang

/-! ### Traversals that may fail -/

section Traversal

variable {α β ε : Type} {f : α → Except ε β}

theorem mapM_eq_ok_iff {as : List α} {bs : List β} :
    as.mapM f = .ok bs ↔ List.Forall₂ (fun a b => f a = .ok b) as bs := by
  induction as generalizing bs with
  | nil => cases bs <;> simp [pure, Except.pure]
  | cons a as ih =>
    rw [List.mapM_cons]
    cases ha : f a with
    | error e => cases bs <;> simp [bind, Except.bind, ha]
    | ok b =>
      cases has : as.mapM f with
      | error e => cases bs <;> simp [bind, Except.bind, ← ih, has]
      | ok bs' => cases bs <;> simp [bind, Except.bind, pure, Except.pure, ← ih, has, ha]

/-- A traversal fails with the first failure. -/
theorem mapM_eq_error_iff {as : List α} {e : ε} :
    as.mapM f = .error e ↔ ∃ before a after, as = before ++ a :: after ∧
      (∀ b ∈ before, ∃ v, f b = .ok v) ∧ f a = .error e := by
  induction as with
  | nil => simp [pure, Except.pure]
  | cons a as ih =>
    rw [List.mapM_cons]
    cases ha : f a with
    | error e' =>
      constructor
      · intro h
        cases h
        exact ⟨[], a, as, rfl, nofun, ha⟩
      · rintro ⟨before, a', after, heq, hbefore, ha'⟩
        cases before with
        | nil =>
          cases heq
          cases ha.symm.trans ha'
          rfl
        | cons b before =>
          cases heq
          obtain ⟨v, hv⟩ := hbefore _ List.mem_cons_self
          cases ha.symm.trans hv
    | ok b =>
      have hrest : (do let bs ← as.mapM f; pure (b :: bs) : Except ε (List β)) = .error e ↔
          as.mapM f = .error e := by
        cases as.mapM f <;> simp [bind, Except.bind, pure, Except.pure]
      refine hrest.trans (ih.trans ?_)
      constructor
      · rintro ⟨before, a', after, rfl, hbefore, ha'⟩
        exact ⟨a :: before, a', after, rfl, List.forall_mem_cons.mpr ⟨⟨b, ha⟩, hbefore⟩, ha'⟩
      · rintro ⟨before, a', after, heq, hbefore, ha'⟩
        cases before with
        | nil =>
          cases heq
          cases ha.symm.trans ha'
        | cons b' before =>
          cases heq
          exact ⟨before, a', after, rfl, (List.forall_mem_cons.mp hbefore).2, ha'⟩

theorem exists_mapM_eq_ok_iff {as : List α} :
    (∃ bs, as.mapM f = .ok bs) ↔ ∀ a ∈ as, ∃ b, f a = .ok b := by
  constructor
  · rintro ⟨bs, h⟩
    rw [mapM_eq_ok_iff] at h
    induction h with
    | nil => nofun
    | cons h _ ih => exact List.forall_mem_cons.mpr ⟨⟨_, h⟩, ih⟩
  · intro h
    cases has : as.mapM f with
    | ok bs => exact ⟨bs, rfl⟩
    | error e =>
      obtain ⟨before, a, after, rfl, -, ha⟩ := mapM_eq_error_iff.mp has
      obtain ⟨b, hb⟩ := h a (List.mem_append_right _ List.mem_cons_self)
      cases hb.symm.trans ha

end Traversal

namespace SortKey

/-! ### The values of an object -/

variable {α : Type} {keys : List SortKey} {entity : α → Entity} {rows : List α}

theorem values_eq_mapM (keys : List SortKey) (e : Entity) :
    values keys e = keys.mapM fun k => k.value e := by
  induction keys with
  | nil => rfl
  | cons k keys ih =>
    rw [List.mapM_cons, values, ih]
    cases k.value e with
    | error err => rfl
    | ok v => cases keys.mapM fun k => k.value e <;> rfl

/-- What the keys give for an object, the most significant first. -/
abbrev AllGive (keys : List SortKey) (e : Entity) (vs : List Value) : Prop :=
  List.Forall₂ (fun k v => k.Gives e (.ok v)) keys vs

theorem values_eq_ok_iff {e : Entity} {vs : List Value} :
    values keys e = .ok vs ↔ AllGive keys e vs := by
  simp only [values_eq_mapM, mapM_eq_ok_iff, AllGive, gives_iff]

/-- An object has one list of values for its keys. -/
theorem AllGive.unique {e : Entity} {u v : List Value} (hu : AllGive keys e u)
    (hv : AllGive keys e v) : u = v :=
  Except.ok.inj ((values_eq_ok_iff.mpr hu).symm.trans (values_eq_ok_iff.mpr hv))

/-- A key that can be read from an object. -/
def Readable (k : SortKey) (e : Entity) : Prop := ∃ v, k.Gives e (.ok v)

theorem exists_allGive_iff {e : Entity} :
    (∃ vs, AllGive keys e vs) ↔ ∀ k ∈ keys, k.Readable e := by
  simp only [← values_eq_ok_iff, values_eq_mapM, exists_mapM_eq_ok_iff, Readable, gives_iff]

theorem readable_iff_isSome {k : SortKey} {e : Entity} :
    k.Readable e ↔ (k.value e).toOption.isSome = true := by
  simp only [Readable, gives_iff]
  cases k.value e <;> simp [Except.toOption]

/-! ### The order of values -/

/-- Whether the first of two values stands behind the second under a key. -/
def Behind (k : SortKey) (a b : Value) : Prop :=
  match k.direction with
  | .ascending | .ascendingCaseInsensitive => a.sortCompare b = .gt
  | .descending | .descendingCaseInsensitive => a.sortCompare b = .lt

/-- Values for keys, the first of which stand behind the second: the most significant key that
tells them apart puts them there. -/
inductive After : List SortKey → List Value → List Value → Prop
  | here {k : SortKey} {keys : List SortKey} {a b : Value} {as bs : List Value} (h : k.Behind a b) :
    After (k :: keys) (a :: as) (b :: bs)
  | later {k : SortKey} {keys : List SortKey} {a b : Value} {as bs : List Value}
    (h : a.sortCompare b = .eq) (hs : After keys as bs) : After (k :: keys) (a :: as) (b :: bs)

/-- Values that no key tells apart. -/
abbrev Tied (as bs : List Value) : Prop := List.Forall₂ (fun a b => a.sortCompare b = .eq) as bs

theorem order_eq_gt_iff {k : SortKey} {a b : Value} : k.order a b = .gt ↔ k.Behind a b := by
  obtain ⟨column, direction⟩ := k
  cases direction with
  | ascending | ascendingCaseInsensitive => rfl
  | descending | descendingCaseInsensitive => exact Ordering.swap_eq_gt

theorem order_eq_eq_iff {k : SortKey} {a b : Value} : k.order a b = .eq ↔ a.sortCompare b = .eq := by
  rw [order]
  split
  · exact Ordering.swap_eq_eq
  · rfl

theorem compareValues_eq_gt_iff {as bs : List Value} :
    compareValues keys as bs = .gt ↔ After keys as bs := by
  induction keys generalizing as bs with
  | nil => exact ⟨nofun, nofun⟩
  | cons k keys ih =>
    cases as with
    | nil => exact ⟨nofun, nofun⟩
    | cons a as =>
      cases bs with
      | nil => exact ⟨nofun, nofun⟩
      | cons b bs =>
        rw [compareValues, Ordering.then_eq_gt, order_eq_gt_iff, order_eq_eq_iff, ih]
        constructor
        · rintro (h | ⟨h, hs⟩)
          · exact .here h
          · exact .later h hs
        · intro h
          cases h with
          | here h => exact .inl h
          | later h hs => exact .inr ⟨h, hs⟩

theorem compareValues_eq_eq_iff {as bs : List Value} (ha : as.length = keys.length)
    (hb : bs.length = keys.length) : compareValues keys as bs = .eq ↔ Tied as bs := by
  induction keys generalizing as bs with
  | nil =>
    obtain rfl := List.length_eq_zero_iff.mp ha
    obtain rfl := List.length_eq_zero_iff.mp hb
    exact ⟨fun _ => .nil, fun _ => rfl⟩
  | cons k keys ih =>
    obtain ⟨a, as, rfl⟩ := List.exists_cons_of_length_eq_add_one ha
    obtain ⟨b, bs, rfl⟩ := List.exists_cons_of_length_eq_add_one hb
    rw [compareValues, Ordering.then_eq_eq, order_eq_eq_iff,
      ih (Nat.succ.inj ha) (Nat.succ.inj hb)]
    simp only [Tied, List.forall₂_cons]

theorem order_swap (k : SortKey) (a b : Value) : k.order a b = (k.order b a).swap := by
  rw [order, order]
  split
  · rw [Value.sortCompare_swap a b]
  · exact Value.sortCompare_swap a b

theorem compareValues_swap (keys : List SortKey) (as bs : List Value) :
    compareValues keys as bs = (compareValues keys bs as).swap := by
  induction keys generalizing as bs with
  | nil => rfl
  | cons k keys ih =>
    cases as with
    | nil => cases bs <;> rfl
    | cons a as =>
      cases bs with
      | nil => rfl
      | cons b bs => rw [compareValues, compareValues, k.order_swap, ih, Ordering.swap_then]

/-- The values of one key lie in one line, if one of the three zeros is missing. -/
theorem exists_order_line (k : SortKey) {S : Value → Prop} (h : ¬Value.MixesZeros S) :
    ∃ cmp : Value → Value → Ordering, Std.TransCmp cmp ∧
      ∀ a b, S a → S b → k.order a b = cmp a b := by
  obtain ⟨split, hline⟩ := Value.exists_lineCompare h
  by_cases hdescending : k.direction.isDescending
  · refine ⟨fun a b => Value.lineCompare split b a, inferInstance, fun a b ha hb => ?_⟩
    rw [order, if_pos hdescending, hline a b ha hb]
    exact Std.OrientedCmp.eq_swap.symm
  · refine ⟨Value.lineCompare split, inferInstance, fun a b ha hb => ?_⟩
    rw [order, if_neg hdescending, hline a b ha hb]

/-- The lists of values of all keys lie in one line. -/
theorem exists_line {S : SortKey → Value → Prop} (h : ∀ k ∈ keys, ¬Value.MixesZeros (S k)) :
    ∃ cmp : List Value → List Value → Ordering, Std.TransCmp cmp ∧
      ∀ as bs, List.Forall₂ S keys as → List.Forall₂ S keys bs →
        compareValues keys as bs = cmp as bs := by
  induction keys with
  | nil => exact ⟨compareOn fun _ => 0, inferInstance, fun as bs _ _ => rfl⟩
  | cons k keys ih =>
    obtain ⟨hk, hkeys⟩ := List.forall_mem_cons.mp h
    obtain ⟨first, _, hfirst⟩ := k.exists_order_line hk
    obtain ⟨rest, _, hrest⟩ := ih hkeys
    have := transCmp_on (fun as : List Value => as.headD .null) first
    have := transCmp_on (fun as : List Value => as.tail) rest
    refine ⟨compareLex (fun as bs => first (as.headD .null) (bs.headD .null))
      fun as bs => rest as.tail bs.tail, inferInstance, fun as bs ha hb => ?_⟩
    cases ha with
    | cons ha has =>
      cases hb with
      | cons hb hbs =>
        rw [compareValues, hfirst _ _ ha hb, hrest _ _ has hbs]
        rfl

/-- Under an ascending key null stands before all other values. -/
theorem null_first {k : SortKey}
    (hk : k.direction = .ascending ∨ k.direction = .ascendingCaseInsensitive) {v : Value}
    (hv : v ≠ .null) : k.Behind v .null := by
  have hgt : v.sortCompare .null = .gt := by
    cases v with
    | null => exact (hv rfl).elim
    | _ => rfl
  rcases hk with hk | hk <;> rwa [Behind, hk]

/-! ### Stable orders of rows -/

/-- The values of one key in some rows. -/
def ColumnHolds (entity : α → Entity) (rows : List α) (k : SortKey) (v : Value) : Prop :=
  ∃ a ∈ rows, k.Gives (entity a) (.ok v)

/-- Rows with their positions, in an order that their keys allow and that keeps the positions of
rows which no key tells apart. -/
structure IsStableOrder (keys : List SortKey) (entity : α → Entity) (rows : List α)
    (placed : List (α × Nat)) : Prop where
  perm : placed.Perm rows.zipIdx
  ordered : placed.Pairwise fun a b => ∀ u v, AllGive keys (entity a.1) u →
    AllGive keys (entity b.1) v → ¬After keys u v
  stable : placed.Pairwise fun a b => ∀ u v, AllGive keys (entity a.1) u →
    AllGive keys (entity b.1) v → Tied u v → a.2 < b.2

theorem mem_toOption_values_iff {e : Entity} {vs : List Value} :
    vs ∈ (values keys e).toOption ↔ AllGive keys e vs := by
  rw [← values_eq_ok_iff]
  cases values keys e <;> simp [Except.toOption]

theorem forall_allGive_iff {e e' : Entity} {P : Prop} :
    ((∀ u v, AllGive keys e u → AllGive keys e' v → ¬After keys u v) ∧
      ∀ u v, AllGive keys e u → AllGive keys e' v → Tied u v → P) ↔
    ∀ u ∈ (values keys e).toOption, ∀ v ∈ (values keys e').toOption,
      compareValues keys u v ≠ .gt ∧ (compareValues keys u v = .eq → P) := by
  simp only [mem_toOption_values_iff]
  constructor
  · rintro ⟨hordered, hstable⟩ u hu v hv
    rw [Ne, compareValues_eq_gt_iff, compareValues_eq_eq_iff hu.length_eq.symm hv.length_eq.symm]
    exact ⟨hordered u v hu hv, hstable u v hu hv⟩
  · intro h
    refine ⟨fun u v hu hv => ?_, fun u v hu hv => ?_⟩
    · rw [← compareValues_eq_gt_iff]
      exact (h u hu v hv).1
    · rw [← compareValues_eq_eq_iff hu.length_eq.symm hv.length_eq.symm]
      exact (h u hu v hv).2

theorem isStableOrder_iff {rows : List α} {placed : List (α × Nat)} :
    IsStableOrder keys entity rows placed ↔ placed.Perm rows.zipIdx ∧
      placed.Pairwise fun a b => ∀ u ∈ (values keys (entity a.1)).toOption,
        ∀ v ∈ (values keys (entity b.1)).toOption,
          compareValues keys u v ≠ .gt ∧ (compareValues keys u v = .eq → a.2 < b.2) := by
  constructor
  · rintro ⟨hperm, hordered, hstable⟩
    exact ⟨hperm, (hordered.and hstable).imp forall_allGive_iff.mp⟩
  · rintro ⟨hperm, hpairwise⟩
    exact ⟨hperm, hpairwise.imp fun h => (forall_allGive_iff.mpr h).1,
      hpairwise.imp fun h => (forall_allGive_iff.mpr h).2⟩

/-- Whether rows stand in such an order is decided by their values. -/
instance [DecidableEq α] (rows : List α) (placed : List (α × Nat)) :
    Decidable (IsStableOrder keys entity rows placed) :=
  decidable_of_iff _ isStableOrder_iff.symm

/-- The rows in such an order. -/
def IsStableSort (keys : List SortKey) (entity : α → Entity) (rows sorted : List α) : Prop :=
  ∃ placed, IsStableOrder keys entity rows placed ∧ placed.map Prod.fst = sorted

/-- Of two lists of values that stand in neither order, no key tells one from the other. -/
theorem tied_of_not_after {e e' : Entity} {u v : List Value} (hu : AllGive keys e u)
    (hv : AllGive keys e' v) (h : ¬After keys u v) (h' : ¬After keys v u) : Tied u v := by
  rw [← compareValues_eq_gt_iff] at h h'
  rw [compareValues_swap, Ordering.swap_eq_gt] at h'
  rw [← compareValues_eq_eq_iff hu.length_eq.symm hv.length_eq.symm]
  cases hcmp : compareValues keys u v with
  | lt => exact (h' hcmp).elim
  | eq => rfl
  | gt => exact (h hcmp).elim

theorem Tied.symm {u v : List Value} (h : Tied u v) : Tied v u := by
  refine h.flip.imp fun a b hab => ?_
  rw [Value.sortCompare_swap, hab]
  rfl

/-- Rows whose keys can be read have no two such orders. -/
theorem IsStableOrder.unique {rows : List α} {placed placed' : List (α × Nat)}
    (hread : ∀ a ∈ rows, ∃ vs, AllGive keys (entity a) vs)
    (h : IsStableOrder keys entity rows placed) (h' : IsStableOrder keys entity rows placed') :
    placed = placed' := by
  have hrow : ∀ a ∈ rows.zipIdx, ∃ vs, AllGive keys (entity a.1) vs := fun a ha =>
    hread a.1 (List.fst_mem_of_mem_zipIdx ha)
  have hboth := h.ordered.and h.stable
  have hboth' := h'.ordered.and h'.stable
  refine List.Perm.eq_of_pairwise ?_ hboth hboth' (h.perm.trans h'.perm.symm)
  intro a b ha hb hab hba
  obtain ⟨u, hu⟩ := hrow a (h.perm.mem_iff.mp ha)
  obtain ⟨v, hv⟩ := hrow b (h'.perm.mem_iff.mp hb)
  -- Neither row stands behind the other, so their positions would be in both orders.
  have htied := tied_of_not_after hu hv (hab.1 u v hu hv) (hba.1 v u hv hu)
  have hlt := hab.2 u v hu hv htied
  have hgt := hba.2 v u hv hu htied.symm
  exact (Nat.lt_asymm hlt hgt).elim

theorem forall₂_columnHolds {rows : List α} {a : α} {vs : List Value} (ha : a ∈ rows)
    (h : AllGive keys (entity a) vs) : List.Forall₂ (ColumnHolds entity rows) keys vs :=
  h.imp fun _ _ hv => ⟨a, ha, hv⟩

theorem not_mixesZeros_of_forall_ne {k : SortKey}
    (h : ∀ a ∈ rows, k.value (entity a) ≠ .ok (.float .zero)) :
    ¬Value.MixesZeros (ColumnHolds entity rows k) := by
  rintro ⟨-, ⟨a, ha, hgives⟩, -⟩
  exact h a ha hgives.value_eq

theorem isStableOrder_zipIdx (h : keys = [] ∨ rows.length < 2) :
    IsStableOrder keys entity rows rows.zipIdx := by
  have hpositions : rows.zipIdx.Pairwise fun a b => a.2 < b.2 := by
    rw [← List.pairwise_map (f := Prod.snd), List.zipIdx_map_snd]
    exact List.pairwise_lt_range'
  refine ⟨.refl _, ?_, hpositions.imp fun hlt _ _ _ _ _ => hlt⟩
  rcases h with rfl | h
  · exact hpositions.imp fun _ _ _ _ _ => nofun
  · match rows, h with
    | [], _ => exact .nil
    | [a], _ => exact List.pairwise_singleton _ _

theorem IsStableOrder.eq_zipIdx (h : keys = [] ∨ rows.length < 2) {placed : List (α × Nat)}
    (hplaced : IsStableOrder keys entity rows placed) : placed = rows.zipIdx := by
  rcases h with rfl | h
  · exact hplaced.unique (fun _ _ => ⟨[], .nil⟩) (isStableOrder_zipIdx (.inl rfl))
  · match rows, h with
    | [], _ => exact hplaced.perm.eq_nil
    | [a], _ => exact hplaced.perm.eq_singleton

end SortKey

end FilterLang
