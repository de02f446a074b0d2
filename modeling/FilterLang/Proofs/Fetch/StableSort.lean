import FilterLang.Proofs.Fetch.StableOrder

/-! Sorting rows gives their one stable sort, or the first key that cannot be read.

Merging needs a comparison that is a total preorder. That of decorated rows is one as far as it is
asked, since their keys lie in one line (`exists_le`). Main statement: `run_sortInPlace`. -/

namespace FilterLang

/-! ### Merging -/

/-- Merging leaves elements that are equal to one another in the order of their positions. -/
theorem exists_placed_mergeSort {α : Type} {le : α → α → Bool}
    (htrans : ∀ a b c, le a b → le b c → le a c) (htotal : ∀ a b, le a b || le b a) (as : List α) :
    ∃ placed : List (α × Nat), placed.map Prod.fst = as.mergeSort le ∧ placed.Perm as.zipIdx ∧
      placed.Pairwise fun a b => le a.1 b.1 = true ∧ (le b.1 a.1 = true → a.2 < b.2) := by
  have hperm := List.mergeSort_perm as.zipIdx (List.zipIdxLE le)
  have hpairwise := List.pairwise_mergeSort (List.zipIdxLE_trans htrans)
    (List.zipIdxLE_total htotal) as.zipIdx
  have hnodup : (as.zipIdx.map Prod.snd).Nodup := by
    rw [List.zipIdx_map_snd]
    exact List.nodup_range'
  have hpositions := List.pairwise_map.mp ((hperm.map Prod.snd).nodup_iff.mpr hnodup)
  refine ⟨_, List.mergeSort_zipIdx, hperm, (hpairwise.and hpositions).imp ?_⟩
  rintro a b ⟨hab, hne⟩
  rw [List.zipIdxLE] at hab
  split at hab
  · rename_i hle
    refine ⟨hle, fun hge => ?_⟩
    rw [if_pos hge, decide_eq_true_eq] at hab
    exact Nat.lt_of_le_of_ne hab hne
  · cases hab

namespace SortKey

variable {α : Type} {keys : List SortKey} {entity : α → Entity}

theorem decorate_eq_mapM (rows : List α) :
    decorate keys entity rows = rows.mapM fun a => (values keys (entity a)).map (·, a) := by
  induction rows with
  | nil => rfl
  | cons a rows ih =>
    rw [List.mapM_cons, decorate, ih]
    cases values keys (entity a) with
    | error err => rfl
    | ok vs => cases rows.mapM fun a => (values keys (entity a)).map (·, a) <;> rfl

/-- What is decorated are the rows in their order, each with its own values. -/
theorem decorate_spec {rows : List α} {ds : List (List Value × α)}
    (h : decorate keys entity rows = .ok ds) :
    ds.map Prod.snd = rows ∧ ∀ d ∈ ds, AllGive keys (entity d.2) d.1 := by
  rw [decorate_eq_mapM, mapM_eq_ok_iff] at h
  induction h with
  | nil => exact ⟨rfl, nofun⟩
  | @cons a d rows ds h _ ih =>
    cases hvs : values keys (entity a) with
    | error err =>
      rw [hvs] at h
      cases h
    | ok vs =>
      rw [hvs] at h
      cases h
      exact ⟨congrArg (a :: ·) ih.1,
        List.forall_mem_cons.mpr ⟨values_eq_ok_iff.mp hvs, ih.2⟩⟩

/-- The comparison of decorated rows is a total preorder as far as it is asked. -/
theorem exists_le {rows : List α} {ds : List (List Value × α)}
    (hzeros : ∀ k ∈ keys, ¬Value.MixesZeros (ColumnHolds entity rows k))
    (h : decorate keys entity rows = .ok ds) :
    ∃ le : List Value × α → List Value × α → Bool, (∀ a b c, le a b → le b c → le a c) ∧
      (∀ a b, le a b || le b a) ∧
        ∀ a ∈ ds, ∀ b ∈ ds, (compareValues keys a.1 b.1 != .gt) = le a b := by
  obtain ⟨hrows, hvalues⟩ := decorate_spec h
  obtain ⟨cmp, _, hline⟩ := exists_line hzeros
  have hcolumns : ∀ d ∈ ds, List.Forall₂ (ColumnHolds entity rows) keys d.1 := by
    intro d hd
    exact forall₂_columnHolds (hrows ▸ List.mem_map_of_mem hd) (hvalues d hd)
  refine ⟨fun a b => (cmp a.1 b.1).isLE, fun a b c => Std.TransCmp.isLE_trans, ?_, ?_⟩
  · intro a b
    have hswap : cmp b.1 a.1 = (cmp a.1 b.1).swap := Std.OrientedCmp.eq_swap
    dsimp only
    rw [hswap]
    cases cmp a.1 b.1 <;> rfl
  · intro a ha b hb
    dsimp only
    rw [hline a.1 b.1 (hcolumns a ha) (hcolumns b hb)]
    cases cmp a.1 b.1 <;> rfl

theorem isStableSort_mergeSort {rows : List α} {ds : List (List Value × α)}
    (hzeros : ∀ k ∈ keys, ¬Value.MixesZeros (ColumnHolds entity rows k))
    (h : decorate keys entity rows = .ok ds) :
    IsStableSort keys entity rows
      ((ds.mergeSort fun a b => compareValues keys a.1 b.1 != .gt).map (·.2)) := by
  obtain ⟨hrows, hvalues⟩ := decorate_spec h
  obtain ⟨le, htrans, htotal, hle⟩ := exists_le hzeros h
  have hsort : (ds.mergeSort fun a b => compareValues keys a.1 b.1 != .gt) = ds.mergeSort le := by
    simpa using List.map_mergeSort (f := id) hle
  obtain ⟨placed, hplaced, hperm, hpairwise⟩ := exists_placed_mergeSort htrans htotal ds
  have hmem : ∀ d ∈ placed, d.1 ∈ ds := fun d hd =>
    List.fst_mem_of_mem_zipIdx (hperm.mem_iff.mp hd)
  have hkey : ∀ d ∈ placed, ∀ u, AllGive keys (entity d.1.2) u → u = d.1.1 :=
    fun d hd u hu => hu.unique (hvalues d.1 (hmem d hd))
  refine ⟨placed.map (Prod.map Prod.snd id), ⟨?_, ?_, ?_⟩, ?_⟩
  · rw [← hrows, ← List.map_zipIdx]
    exact hperm.map _
  · refine List.pairwise_map.mpr (hpairwise.imp_of_mem ?_)
    intro a b ha hb hab u v hu hv hafter
    obtain rfl := hkey a ha u hu
    obtain rfl := hkey b hb v hv
    have hne := hle a.1 (hmem a ha) b.1 (hmem b hb)
    rw [compareValues_eq_gt_iff.mpr hafter, hab.1] at hne
    cases hne
  · refine List.pairwise_map.mpr (hpairwise.imp_of_mem ?_)
    intro a b ha hb hab u v hu hv htied
    obtain rfl := hkey a ha u hu
    obtain rfl := hkey b hb v hv
    have heq := (compareValues_eq_eq_iff hv.length_eq.symm hu.length_eq.symm).mpr htied.symm
    have hback := hle b.1 (hmem b hb) a.1 (hmem a ha)
    rw [heq] at hback
    exact hab.2 hback.symm
  · rw [hsort, ← hplaced, List.map_map, List.map_map]
    rfl

end SortKey

/-! ### Sorting -/

section

open SortKey

variable {α : Type} {keys : List SortKey} {entity : α → Entity} {rows : List α}

/-- Without keys or with fewer than two rows there is nothing to sort. -/
theorem sortRows_of_short (h : keys = [] ∨ rows.length < 2) :
    sortRows keys entity rows = .ok rows := by
  rw [sortRows, if_pos]
  simpa using h

theorem sortRows_of_long (hkeys : keys ≠ []) (hrows : 2 ≤ rows.length) :
    sortRows keys entity rows = (decorate keys entity rows).map fun ds =>
      (ds.mergeSort fun a b => compareValues keys a.1 b.1 != .gt).map (·.2) := by
  rw [sortRows, if_neg]
  simp only [Bool.or_eq_true, List.isEmpty_iff, decide_eq_true_eq, hkeys, false_or]
  exact Nat.not_lt.mpr hrows

/-- A list of rows has one stable sort, which is what sorting gives. -/
theorem isStableSort_iff_of_sortRows {sorted : List α} (h : sortRows keys entity rows = .ok sorted)
    (hzeros : ∀ k ∈ keys, ¬Value.MixesZeros (ColumnHolds entity rows k)) (other : List α) :
    IsStableSort keys entity rows other ↔ other = sorted := by
  suffices hsorted : IsStableSort keys entity rows sorted ∧
      ∀ placed placed', IsStableOrder keys entity rows placed →
        IsStableOrder keys entity rows placed' → placed = placed' by
    obtain ⟨⟨placed, hplaced, rfl⟩, hunique⟩ := hsorted
    constructor
    · rintro ⟨placed', hplaced', rfl⟩
      rw [hunique _ _ hplaced' hplaced]
    · rintro rfl
      exact ⟨placed, hplaced, rfl⟩
  by_cases hshort : keys = [] ∨ rows.length < 2
  · rw [sortRows_of_short hshort] at h
    cases h
    refine ⟨⟨rows.zipIdx, isStableOrder_zipIdx hshort, List.zipIdx_map_fst 0 rows⟩, ?_⟩
    intro placed placed' hplaced hplaced'
    rw [hplaced.eq_zipIdx hshort, hplaced'.eq_zipIdx hshort]
  · rw [not_or, Nat.not_lt] at hshort
    rw [sortRows_of_long hshort.1 hshort.2] at h
    cases hds : decorate keys entity rows with
    | error e =>
      rw [hds] at h
      cases h
    | ok ds =>
      rw [hds] at h
      cases h
      obtain ⟨hrows, hvalues⟩ := decorate_spec hds
      refine ⟨isStableSort_mergeSort hzeros hds, fun _ _ hplaced => hplaced.unique ?_⟩
      intro a ha
      rw [← hrows] at ha
      obtain ⟨d, hd, rfl⟩ := List.mem_map.mp ha
      exact ⟨d.1, hvalues d hd⟩

/-- The error of the first object with a key that cannot be read, and of its first such key. -/
def FirstUnreadable (keys : List SortKey) (entity : α → Entity) (rows : List α)
    (err : EvaluationError) : Prop :=
  ∃ before a after first k rest, rows = before ++ a :: after ∧ keys = first ++ k :: rest ∧
    (∀ b ∈ before, ∀ k' ∈ keys, k'.Readable (entity b)) ∧
      (∀ k' ∈ first, k'.Readable (entity a)) ∧ k.Gives (entity a) (.error err)

theorem decorate_eq_error_iff {e : EvaluationError} :
    decorate keys entity rows = .error e ↔ FirstUnreadable keys entity rows e := by
  have hok : ∀ a, (∃ v, (values keys (entity a)).map (·, a) = .ok v) ↔
      ∀ k ∈ keys, k.Readable (entity a) := by
    intro a
    simp only [← exists_allGive_iff, ← values_eq_ok_iff]
    cases values keys (entity a) <;> simp [Except.map]
  have herror : ∀ a, (values keys (entity a)).map (·, a) = .error e ↔
      keys.mapM (fun k => k.value (entity a)) = .error e := by
    intro a
    rw [← values_eq_mapM]
    cases values keys (entity a) <;> simp [Except.map]
  rw [decorate_eq_mapM, mapM_eq_error_iff]
  constructor
  · rintro ⟨before, a, after, hrows, hbefore, ha⟩
    obtain ⟨first, k, rest, hkeys, hfirst, hk⟩ := mapM_eq_error_iff.mp ((herror a).mp ha)
    simp only [← gives_iff] at hfirst hk
    exact ⟨before, a, after, first, k, rest, hrows, hkeys, fun b hb => (hok b).mp (hbefore b hb),
      hfirst, hk⟩
  · rintro ⟨before, a, after, first, k, rest, hrows, hkeys, hbefore, hfirst, hk⟩
    refine ⟨before, a, after, hrows, fun b hb => (hok b).mpr (hbefore b hb), (herror a).mpr ?_⟩
    simp only [Readable, gives_iff] at hfirst hk
    exact mapM_eq_error_iff.mpr ⟨first, k, rest, hkeys, hfirst, hk⟩

theorem sortRows_eq_error_iff {e : EvaluationError} :
    sortRows keys entity rows = .error e ↔
      2 ≤ rows.length ∧ keys ≠ [] ∧ FirstUnreadable keys entity rows e := by
  rw [← decorate_eq_error_iff]
  by_cases hshort : keys = [] ∨ rows.length < 2
  · rw [sortRows_of_short hshort]
    constructor
    · nofun
    · rintro ⟨hrows, hkeys, -⟩
      exact (hshort.elim hkeys (Nat.not_lt.mpr hrows)).elim
  · rw [not_or, Nat.not_lt] at hshort
    rw [sortRows_of_long hshort.1 hshort.2]
    cases decorate keys entity rows <;> simp [Except.map, hshort]

theorem exists_firstUnreadable_iff :
    (∃ e, FirstUnreadable keys entity rows e) ↔
      ∃ a ∈ rows, ∃ k ∈ keys, ¬k.Readable (entity a) := by
  constructor
  · rintro ⟨e, before, a, after, first, k, rest, rfl, rfl, -, -, hk⟩
    refine ⟨a, by simp, k, by simp, ?_⟩
    rintro ⟨v, hv⟩
    cases hv.value_eq.symm.trans hk.value_eq
  · rintro ⟨a, ha, k, hk, hunreadable⟩
    cases hds : decorate keys entity rows with
    | error e => exact ⟨e, decorate_eq_error_iff.mp hds⟩
    | ok ds =>
      obtain ⟨rfl, hvalues⟩ := decorate_spec hds
      obtain ⟨d, hd, rfl⟩ := List.mem_map.mp ha
      exact (hunreadable (exists_allGive_iff.mp ⟨d.1, hvalues d hd⟩ k hk)).elim

/-- A stable order of rows whose keys can be read is the one that sorting finds. -/
theorem sortRows_eq_of_isStableOrder (hread : ∀ a ∈ rows, ∀ k ∈ keys, k.Readable (entity a))
    (hzeros : ∀ k ∈ keys, ¬Value.MixesZeros (ColumnHolds entity rows k))
    {placed : List (α × Nat)} (h : IsStableOrder keys entity rows placed) :
    sortRows keys entity rows = .ok (placed.map Prod.fst) := by
  cases hsort : sortRows keys entity rows with
  | error e =>
    obtain ⟨a, ha, k, hk, hunreadable⟩ :=
      exists_firstUnreadable_iff.mp ⟨e, (sortRows_eq_error_iff.mp hsort).2.2⟩
    exact absurd (hread a ha k hk) hunreadable
  | ok sorted =>
    rw [(isStableSort_iff_of_sortRows hsort hzeros _).mp ⟨placed, h, rfl⟩]

theorem run_sortInPlace_eq :
    (sortInPlace keys entity).run rows = match sortRows keys entity rows with
      | .ok sorted => (.ok (), sorted)
      | .error e => (.error e, rows) := by
  cases h : sortRows keys entity rows <;>
    simp only [sortInPlace, StateT.run_bind, StateT.run_get, pure_bind, h] <;> rfl

theorem run_eq_ok_iff {sorted : List α} :
    (sortInPlace keys entity).run rows = (.ok (), sorted) ↔
      sortRows keys entity rows = .ok sorted := by
  rw [run_sortInPlace_eq]
  cases sortRows keys entity rows with
  | error e => exact ⟨nofun, nofun⟩
  | ok sorted' =>
    constructor
    · rintro ⟨⟩
      rfl
    · rintro ⟨⟩
      rfl

theorem run_eq_error_iff {e : EvaluationError} {after : List α} :
    (sortInPlace keys entity).run rows = (.error e, after) ↔
      sortRows keys entity rows = .error e ∧ after = rows := by
  rw [run_sortInPlace_eq]
  cases sortRows keys entity rows with
  | error e' =>
    constructor
    · rintro ⟨⟩
      exact ⟨rfl, rfl⟩
    · rintro ⟨⟨⟩, rfl⟩
      rfl
  | ok sorted => exact ⟨nofun, nofun⟩

/-- Where sorting succeeds, the rows held are their one stable sort, in which null comes first under
an ascending key. It fails exactly if there are two rows and a key that some row does not have, with
the first such failure and the rows as they were. -/
theorem run_sortInPlace (keys : List SortKey) (entity : α → Entity) (rows : List α) :
    (∀ sorted, (sortInPlace keys entity).run rows = (.ok (), sorted) →
      (∀ k ∈ keys, ¬Value.MixesZeros (ColumnHolds entity rows k)) →
        ∀ other, IsStableSort keys entity rows other ↔ other = sorted) ∧
      (∀ k : SortKey, k.direction = .ascending ∨ k.direction = .ascendingCaseInsensitive →
        ∀ v, v ≠ .null → k.Behind v .null) ∧
      ((∃ e after, (sortInPlace keys entity).run rows = (.error e, after)) ↔
        2 ≤ rows.length ∧ keys ≠ [] ∧ ∃ a ∈ rows, ∃ k ∈ keys, ¬k.Readable (entity a)) ∧
      ∀ e after, (sortInPlace keys entity).run rows = (.error e, after) →
        after = rows ∧ FirstUnreadable keys entity rows e := by
  refine ⟨?_, fun k hk v hv => null_first hk hv, ?_, ?_⟩
  · intro sorted h hzeros other
    exact isStableSort_iff_of_sortRows (run_eq_ok_iff.mp h) hzeros other
  · rw [← exists_firstUnreadable_iff]
    constructor
    · rintro ⟨e, after, h⟩
      obtain ⟨hrows, hkeys, hfirst⟩ := sortRows_eq_error_iff.mp (run_eq_error_iff.mp h).1
      exact ⟨hrows, hkeys, e, hfirst⟩
    · rintro ⟨hrows, hkeys, e, hfirst⟩
      exact ⟨e, rows, run_eq_error_iff.mpr ⟨sortRows_eq_error_iff.mpr ⟨hrows, hkeys, hfirst⟩, rfl⟩⟩
  · intro e after h
    obtain ⟨hsort, rfl⟩ := run_eq_error_iff.mp h
    exact ⟨rfl, (sortRows_eq_error_iff.mp hsort).2.2⟩

/-- The film without a director comes first and the one without a year last of its director. Two
films tie, since the names of their directors differ in case alone. No film has a rating. -/
theorem run_sortInPlace_films :
    let person (name : String) : Entity := .mk "person" [("name", .value (.text name))]
    let film (row : String × Option String × Value) : Entity :=
      .mk "film" [("director", (row.2.1.map person).elim .absent .one), ("year", .value row.2.2)]
    let rows : List (String × Option String × Value) :=
      [("Alien", some "scott", .int 1979), ("Ali", some "Mann", .null), ("Crimewave", none, .null),
        ("Legend", some "Scott", .int 1979), ("Heat", some "mann", .int 1995)]
    let keys : List SortKey :=
      [⟨"director.name", .ascendingCaseInsensitive⟩, .descending "year"]
    let sorted : List (String × Option String × Value) :=
      [("Crimewave", none, .null), ("Heat", some "mann", .int 1995), ("Ali", some "Mann", .null),
        ("Alien", some "scott", .int 1979), ("Legend", some "Scott", .int 1979)]
    let unreadable := keys ++ [.ascending "rating"]
    let err : EvaluationError := .unknownMember "rating" "film"
    (sortInPlace keys film).run rows = (.ok (), sorted) ∧
      (∀ k ∈ keys, ¬Value.MixesZeros (ColumnHolds film rows k)) ∧
      (∀ other, IsStableSort keys film rows other ↔ other = sorted) ∧
      (sortInPlace unreadable film).run rows = (.error err, rows) ∧
      FirstUnreadable unreadable film rows err := by
  intro person film rows keys sorted unreadable err
  have hread : ∀ a ∈ rows, ∀ k ∈ keys, k.Readable (film a) := by
    simp only [readable_iff_isSome]
    decide +kernel
  have hnone : ∀ k ∈ keys, ∀ a ∈ rows, k.value (film a) ≠ .ok (.float .zero) := by
    decide +kernel
  have hzeros : ∀ k ∈ keys, ¬Value.MixesZeros (ColumnHolds film rows k) := fun k hk =>
    not_mixesZeros_of_forall_ne (hnone k hk)
  have horder : IsStableOrder keys film rows (sorted.zip [2, 4, 1, 0, 3]) := by decide +kernel
  have hsorted : (sortInPlace keys film).run rows = (.ok (), sorted) :=
    run_eq_ok_iff.mpr (sortRows_eq_of_isStableOrder hread hzeros horder)
  have hfailed : (sortInPlace unreadable film).run rows = (.error err, rows) :=
    run_eq_error_iff.mpr ⟨by decide +kernel, rfl⟩
  obtain ⟨hstable, -⟩ := run_sortInPlace keys film rows
  obtain ⟨-, -, -, hfirst⟩ := run_sortInPlace unreadable film rows
  exact ⟨hsorted, hzeros, hstable sorted hsorted hzeros, hfailed, (hfirst err rows hfailed).2⟩

end

end FilterLang
