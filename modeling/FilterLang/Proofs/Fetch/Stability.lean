import FilterLang.Proofs.Fetch.Limit

/-! Sorting is stable: sorts by fewer keys compose, and filters commute with sorts.

Two lists in order are the same if the elements that tie with any one element are the same in both
(`eq_of_tiesOf_eq`). Sorting and filtering keep such elements in their order, so either law is an
equation between filters. Rows whose keys can be read are sorted by one comparison of rows
(`Orders`), and a comparison for more keys is put together from those for fewer. Main statements:
`run_sortInPlace_append` and `filter_run_sortInPlace`. -/

namespace FilterLang

/-! ### Sorting by a comparison -/

section Comparison

variable {α : Type} {cmp cmp' : α → α → Ordering} {l s s' : List α}

/-- The elements in the order of a comparison; those that tie keep their order. -/
def sortBy (cmp : α → α → Ordering) (l : List α) : List α := l.mergeSort fun a b => (cmp a b).isLE

/-- The elements that tie with one. -/
def tiesOf (cmp : α → α → Ordering) (a : α) (l : List α) : List α :=
  l.filter fun b => cmp a b == .eq

theorem perm_sortBy (cmp : α → α → Ordering) (l : List α) : (sortBy cmp l).Perm l :=
  List.mergeSort_perm _ _

theorem sortBy_of_pairwise (h : l.Pairwise fun a b => (cmp a b).isLE) : sortBy cmp l = l :=
  List.mergeSort_of_pairwise h

theorem tiesOf_cons_of_eq {a b : α} (h : cmp a b = .eq) :
    tiesOf cmp a (b :: l) = b :: tiesOf cmp a l :=
  List.filter_cons_of_pos (beq_iff_eq.mpr h)

theorem tiesOf_filter (a : α) (p : α → Bool) :
    tiesOf cmp a (l.filter p) = (tiesOf cmp a l).filter p := by
  rw [tiesOf, tiesOf, List.filter_filter, List.filter_filter]
  exact List.filter_congr fun b _ => Bool.and_comm _ _

theorem tiesOf_comm (a b : α) : tiesOf cmp a (tiesOf cmp' b l) = tiesOf cmp' b (tiesOf cmp a l) :=
  tiesOf_filter a _

theorem tiesOf_compareLex (a : α) :
    tiesOf (compareLex cmp cmp') a l = tiesOf cmp a (tiesOf cmp' a l) := by
  rw [tiesOf, tiesOf, tiesOf, List.filter_filter]
  refine List.filter_congr fun b _ => ?_
  rw [compareLex]
  cases cmp a b <;> rfl

variable [Std.TransCmp cmp]

theorem total_isLE (a b : α) : ((cmp a b).isLE || (cmp b a).isLE) = true := by
  have hswap : cmp b a = (cmp a b).swap := Std.OrientedCmp.eq_swap
  rw [hswap]
  cases cmp a b <;> rfl

theorem pairwise_sortBy (cmp : α → α → Ordering) [Std.TransCmp cmp] (l : List α) :
    (sortBy cmp l).Pairwise fun a b => (cmp a b).isLE :=
  List.pairwise_mergeSort (fun _ _ _ => Std.TransCmp.isLE_trans) total_isLE l

theorem tiesOf_sortBy (a : α) : tiesOf cmp a (sortBy cmp l) = tiesOf cmp a l := by
  have hties : (tiesOf cmp a l).Pairwise fun b c => (cmp b c).isLE := by
    refine List.pairwise_of_forall_mem_list fun b hb c hc => ?_
    have hab := beq_iff_eq.mp (List.mem_filter.mp hb).2
    have hac := beq_iff_eq.mp (List.mem_filter.mp hc).2
    rw [Std.TransCmp.congr_left hab] at hac
    rw [hac]
    rfl
  have hsub : (tiesOf cmp a l).Sublist (sortBy cmp l) :=
    List.sublist_mergeSort (fun _ _ _ => Std.TransCmp.isLE_trans) total_isLE hties
      List.filter_sublist
  have hkept := hsub.filter fun b => cmp a b == .eq
  rw [tiesOf, List.filter_filter] at hkept
  simp only [Bool.and_self] at hkept
  exact (hkept.eq_of_length ((perm_sortBy cmp l).filter _).symm.length_eq).symm

theorem mem_tiesOf_self {a : α} : a ∈ tiesOf cmp a l ↔ a ∈ l := by
  have hself : cmp a a = .eq := Std.ReflCmp.compare_self
  rw [tiesOf, List.mem_filter, hself]
  exact and_iff_left rfl

theorem isLE_of_mem_of_pairwise {a b : α} (h : (a :: l).Pairwise fun a b => (cmp a b).isLE)
    (hb : b ∈ a :: l) : (cmp a b).isLE := by
  rcases List.mem_cons.mp hb with rfl | hb
  · have hself : cmp b b = .eq := Std.ReflCmp.compare_self
    rw [hself]
    rfl
  · exact List.rel_of_pairwise_cons h hb

theorem mem_iff_of_tiesOf_eq (h : ∀ a, tiesOf cmp a s = tiesOf cmp a s') (a : α) :
    a ∈ s ↔ a ∈ s' :=
  calc a ∈ s ↔ a ∈ tiesOf cmp a s := mem_tiesOf_self.symm
    _ ↔ a ∈ tiesOf cmp a s' := by rw [h a]
    _ ↔ a ∈ s' := mem_tiesOf_self

/-- A list in order is determined by what ties in it. -/
theorem eq_of_tiesOf_eq (hs : s.Pairwise fun a b => (cmp a b).isLE)
    (hs' : s'.Pairwise fun a b => (cmp a b).isLE) (h : ∀ a, tiesOf cmp a s = tiesOf cmp a s') :
    s = s' := by
  induction s generalizing s' with
  | nil =>
    cases s' with
    | nil => rfl
    | cons b s' => exact absurd ((mem_iff_of_tiesOf_eq h b).mpr List.mem_cons_self) List.not_mem_nil
  | cons a s ih =>
    cases s' with
    | nil => exact absurd ((mem_iff_of_tiesOf_eq h a).mp List.mem_cons_self) List.not_mem_nil
    | cons b s' =>
      -- The first elements tie, and so both are the first of what ties with them.
      have hab : cmp a b = .eq := Std.OrientedCmp.isLE_antisymm
        (isLE_of_mem_of_pairwise hs ((mem_iff_of_tiesOf_eq h b).mpr List.mem_cons_self))
        (isLE_of_mem_of_pairwise hs' ((mem_iff_of_tiesOf_eq h a).mp List.mem_cons_self))
      have haa : cmp a a = .eq := Std.ReflCmp.compare_self
      have hfirst := h a
      rw [tiesOf_cons_of_eq haa, tiesOf_cons_of_eq hab] at hfirst
      obtain rfl := (List.cons.inj hfirst).1
      have htails : ∀ c, tiesOf cmp c s = tiesOf cmp c s' := by
        intro c
        have hc := h c
        rw [tiesOf, tiesOf, List.filter_cons, List.filter_cons] at hc
        split at hc
        · exact (List.cons.inj hc).2
        · exact hc
      rw [ih (List.pairwise_cons.mp hs).2 (List.pairwise_cons.mp hs').2 htails]

/-- Filtering a sorted list sorts what is left. -/
theorem filter_sortBy (p : α → Bool) : (sortBy cmp l).filter p = sortBy cmp (l.filter p) := by
  refine eq_of_tiesOf_eq ((pairwise_sortBy cmp l).filter p) (pairwise_sortBy cmp _) fun a => ?_
  rw [tiesOf_filter, tiesOf_sortBy, tiesOf_sortBy, tiesOf_filter]

variable [Std.TransCmp cmp']

/-- Where the first comparison says that two elements tie, they stand as the second one says. -/
theorem pairwise_sortBy_sortBy :
    (sortBy cmp (sortBy cmp' l)).Pairwise fun a b => (compareLex cmp cmp' a b).isLE := by
  have hpairwise := pairwise_sortBy cmp (sortBy cmp' l)
  rw [List.pairwise_iff_forall_sublist] at hpairwise ⊢
  intro a b hab
  have hle := hpairwise hab
  rw [compareLex]
  cases hcmp : cmp a b with
  | lt => rfl
  | gt => rw [hcmp] at hle; cases hle
  | eq =>
    have hpair : tiesOf cmp a [a, b] = [a, b] := by
      rw [tiesOf_cons_of_eq Std.ReflCmp.compare_self, tiesOf_cons_of_eq hcmp]
      rfl
    have hties : (tiesOf cmp a [a, b]).Sublist (tiesOf cmp a (sortBy cmp (sortBy cmp' l))) :=
      hab.filter _
    rw [hpair, tiesOf_sortBy] at hties
    exact List.pairwise_iff_forall_sublist.mp (pairwise_sortBy cmp' l)
      (hties.trans List.filter_sublist)

/-- Sorting by a second comparison and then by a first one is sorting by the first and, where it
says nothing, by the second. -/
theorem sortBy_sortBy : sortBy cmp (sortBy cmp' l) = sortBy (compareLex cmp cmp') l := by
  refine eq_of_tiesOf_eq pairwise_sortBy_sortBy (pairwise_sortBy _ l) fun a => ?_
  calc tiesOf (compareLex cmp cmp') a (sortBy cmp (sortBy cmp' l))
      = tiesOf cmp' a (tiesOf cmp a (sortBy cmp (sortBy cmp' l))) := by
        rw [tiesOf_compareLex, tiesOf_comm]
    _ = tiesOf cmp a (tiesOf cmp' a (sortBy cmp' l)) := by rw [tiesOf_sortBy, tiesOf_comm]
    _ = tiesOf (compareLex cmp cmp') a l := by rw [tiesOf_sortBy, tiesOf_compareLex]
    _ = tiesOf (compareLex cmp cmp') a (sortBy (compareLex cmp cmp') l) := by rw [tiesOf_sortBy]

end Comparison

/-! ### Sorting rows -/

section Rows

open SortKey

variable {α : Type} {entity : α → Entity} {rows rows' : List α}

namespace SortKey

variable {keys major minor : List SortKey} {cmp cmp' : α → α → Ordering}

/-- A comparison that orders rows as their keys do, all of which can be read. -/
structure Orders (cmp : α → α → Ordering) (keys : List SortKey) (entity : α → Entity)
    (rows : List α) : Prop where
  read : ∀ a ∈ rows, ∃ vs, AllGive keys (entity a) vs
  compare : ∀ a ∈ rows, ∀ b ∈ rows, ∀ u v, AllGive keys (entity a) u →
    AllGive keys (entity b) v → compareValues keys u v = cmp a b

theorem Orders.mono (h : Orders cmp keys entity rows) (hsub : rows' ⊆ rows) :
    Orders cmp keys entity rows' where
  read a ha := h.read a (hsub ha)
  compare a ha b hb := h.compare a (hsub ha) b (hsub hb)

/-- Rows whose keys can be read are in some order, if no column mixes the three zeros. -/
theorem exists_orders (hread : ∀ a ∈ rows, ∀ k ∈ keys, k.Readable (entity a))
    (hzeros : ∀ k ∈ keys, ¬Value.MixesZeros (ColumnHolds entity rows k)) :
    ∃ cmp, Std.TransCmp cmp ∧ Orders cmp keys entity rows := by
  have hvalues : ∀ a ∈ rows, ∃ vs, AllGive keys (entity a) vs := fun a ha =>
    exists_allGive_iff.mpr (hread a ha)
  obtain ⟨line, _, hline⟩ := exists_line hzeros
  refine ⟨fun a b => line ((values keys (entity a)).toOption.getD [])
    ((values keys (entity b)).toOption.getD []), transCmp_on _ line, hvalues, ?_⟩
  intro a ha b hb u v hu hv
  rw [values_eq_ok_iff.mpr hu, values_eq_ok_iff.mpr hv]
  exact hline u v (forall₂_columnHolds ha hu) (forall₂_columnHolds hb hv)

theorem compareValues_append {u u' v v' : List Value} (hu : u.length = major.length)
    (hu' : u'.length = major.length) :
    compareValues (major ++ minor) (u ++ v) (u' ++ v') =
      (compareValues major u u').then (compareValues minor v v') := by
  induction major generalizing u u' with
  | nil =>
    obtain rfl := List.length_eq_zero_iff.mp hu
    obtain rfl := List.length_eq_zero_iff.mp hu'
    rfl
  | cons k major ih =>
    obtain ⟨a, u, rfl⟩ := List.exists_cons_of_length_eq_add_one hu
    obtain ⟨a', u', rfl⟩ := List.exists_cons_of_length_eq_add_one hu'
    simp only [List.cons_append, compareValues]
    rw [ih (Nat.succ.inj hu) (Nat.succ.inj hu'), Ordering.then_assoc]

/-- More keys order rows by the first ones and, where these say nothing, by the others. -/
theorem Orders.append (h : Orders cmp major entity rows) (h' : Orders cmp' minor entity rows) :
    Orders (compareLex cmp cmp') (major ++ minor) entity rows := by
  have happend : ∀ a ∈ rows, ∃ u v, AllGive major (entity a) u ∧
      AllGive minor (entity a) v ∧ AllGive (major ++ minor) (entity a) (u ++ v) := by
    intro a ha
    obtain ⟨u, hu⟩ := h.read a ha
    obtain ⟨v, hv⟩ := h'.read a ha
    exact ⟨u, v, hu, hv, List.rel_append hu hv⟩
  constructor
  · intro a ha
    obtain ⟨u, v, -, -, huv⟩ := happend a ha
    exact ⟨u ++ v, huv⟩
  · intro a ha b hb w w' hw hw'
    obtain ⟨u, v, hu, hv, huv⟩ := happend a ha
    obtain ⟨u', v', hu', hv', huv'⟩ := happend b hb
    obtain rfl := hw.unique huv
    obtain rfl := hw'.unique huv'
    rw [compareValues_append hu.length_eq.symm hu'.length_eq.symm,
      h.compare a ha b hb u u' hu hu', h'.compare a ha b hb v v' hv hv']
    rfl

theorem Orders.pairwise_of_short (h : Orders cmp keys entity rows)
    (hshort : keys = [] ∨ rows.length < 2) : rows.Pairwise fun a b => (cmp a b).isLE := by
  rcases hshort with rfl | hshort
  · refine List.pairwise_of_forall_mem_list fun a ha b hb => ?_
    rw [← h.compare a ha b hb [] [] .nil .nil]
    rfl
  · match rows, hshort with
    | [], _ => exact .nil
    | [a], _ => exact List.pairwise_singleton _ _

/-- Rows whose keys can be read are sorted by the comparison that orders them. -/
theorem Orders.sortRows_eq (h : Orders cmp keys entity rows) :
    sortRows keys entity rows = .ok (sortBy cmp rows) := by
  by_cases hshort : keys = [] ∨ rows.length < 2
  · rw [sortRows_of_short hshort, sortBy_of_pairwise (h.pairwise_of_short hshort)]
  · rw [not_or, Nat.not_lt] at hshort
    rw [sortRows_of_long hshort.1 hshort.2]
    cases hds : decorate keys entity rows with
    | error e =>
      obtain ⟨a, ha, k, hk, hunreadable⟩ :=
        exists_firstUnreadable_iff.mp ⟨e, decorate_eq_error_iff.mp hds⟩
      exact absurd (exists_allGive_iff.mp (h.read a ha) k hk) hunreadable
    | ok ds =>
      obtain ⟨hrows, hvalues⟩ := decorate_spec hds
      have hmem : ∀ d ∈ ds, d.2 ∈ rows := fun d hd => hrows ▸ List.mem_map_of_mem hd
      have hle : ∀ d ∈ ds, ∀ d' ∈ ds,
          (compareValues keys d.1 d'.1 != .gt) = (cmp d.2 d'.2).isLE := by
        intro d hd d' hd'
        rw [h.compare d.2 (hmem d hd) d'.2 (hmem d' hd') d.1 d'.1 (hvalues d hd) (hvalues d' hd')]
        cases cmp d.2 d'.2 <;> rfl
      have hsort := List.map_mergeSort (f := Prod.snd) (s := fun a b => (cmp a b).isLE) hle
      rw [hrows] at hsort
      exact congrArg Except.ok hsort

end SortKey

/-- Where all keys can be read, sorting by the minor keys and then by the major ones sorts by the
major keys and then the minor ones; sorting once more changes nothing. -/
theorem run_sortInPlace_append (major minor : List SortKey)
    (hread : ∀ a ∈ rows, ∀ k ∈ major ++ minor, k.Readable (entity a))
    (hzeros : ∀ k ∈ major ++ minor, ¬Value.MixesZeros (ColumnHolds entity rows k)) :
    ∃ first sorted, (sortInPlace minor entity).run rows = (.ok (), first) ∧
      (sortInPlace major entity).run first = (.ok (), sorted) ∧
      (sortInPlace (major ++ minor) entity).run rows = (.ok (), sorted) ∧
      (sortInPlace (major ++ minor) entity).run sorted = (.ok (), sorted) := by
  have hmajor : major ⊆ major ++ minor := List.subset_append_left _ _
  have hminor : minor ⊆ major ++ minor := List.subset_append_right _ _
  obtain ⟨cmp, _, h⟩ := exists_orders (fun a ha k hk => hread a ha k (hmajor hk))
    fun k hk => hzeros k (hmajor hk)
  obtain ⟨cmp', _, h'⟩ := exists_orders (fun a ha k hk => hread a ha k (hminor hk))
    fun k hk => hzeros k (hminor hk)
  have hfirst : sortBy cmp' rows ⊆ rows := (perm_sortBy cmp' rows).subset
  have hsorted : sortBy (compareLex cmp cmp') rows ⊆ rows := (perm_sortBy _ rows).subset
  have hagain : sortBy (compareLex cmp cmp') (sortBy (compareLex cmp cmp') rows) =
      sortBy (compareLex cmp cmp') rows := sortBy_of_pairwise (pairwise_sortBy _ rows)
  refine ⟨sortBy cmp' rows, sortBy (compareLex cmp cmp') rows, ?_, ?_, ?_, ?_⟩
  · exact run_eq_ok_iff.mpr h'.sortRows_eq
  · rw [← sortBy_sortBy]
    exact run_eq_ok_iff.mpr (h.mono hfirst).sortRows_eq
  · exact run_eq_ok_iff.mpr (h.append h').sortRows_eq
  · rw [run_eq_ok_iff, ((h.append h').mono hsorted).sortRows_eq, hagain]

/-- Under the descending key the rows without a year come last. Two rows tie under both keys. -/
theorem run_sortInPlace_append_films :
    let film (row : String × Value × Int64) : Entity :=
      .mk "film" [("year", .value row.2.1), ("rating", .value (.int row.2.2))]
    let rows := [("Jaws", .null, 4), ("Heat", .int 0, 6), ("Alien", .int 0, 4), ("Tron", .int 0, 4)]
    let major := [SortKey.descending "year"]
    let minor := [SortKey.ascending "rating"]
    let sorted :=
      [("Alien", .int 0, 4), ("Tron", .int 0, 4), ("Heat", .int 0, 6), ("Jaws", .null, 4)]
    (∀ a ∈ rows, ∀ k ∈ major ++ minor, k.Readable (film a)) ∧
      (∀ k ∈ major ++ minor, ¬Value.MixesZeros (ColumnHolds film rows k)) ∧
      ∃ first, (sortInPlace minor film).run rows = (.ok (), first) ∧
        (sortInPlace major film).run first = (.ok (), sorted) ∧
        (sortInPlace (major ++ minor) film).run rows = (.ok (), sorted) ∧
        (sortInPlace (major ++ minor) film).run sorted = (.ok (), sorted) := by
  intro film rows major minor sorted
  have hread : ∀ a ∈ rows, ∀ k ∈ major ++ minor, k.Readable (film a) := by
    simp only [readable_iff_isSome]
    decide +kernel
  have hnone : ∀ k ∈ major ++ minor, ∀ a ∈ rows, k.value (film a) ≠ .ok (.float .zero) := by
    decide +kernel
  have hzeros : ∀ k ∈ major ++ minor, ¬Value.MixesZeros (ColumnHolds film rows k) := fun k hk =>
    not_mixesZeros_of_forall_ne (hnone k hk)
  have horder : IsStableOrder (major ++ minor) film rows (sorted.zip [2, 3, 1, 0]) := by
    decide +kernel
  have hsorted := sortRows_eq_of_isStableOrder hread hzeros horder
  obtain ⟨first, sorted', hfirst, hsecond, hboth, hagain⟩ :=
    run_sortInPlace_append major minor hread hzeros
  obtain rfl := Except.ok.inj ((run_eq_ok_iff.mp hboth).symm.trans hsorted)
  exact ⟨hread, hzeros, first, hfirst, hsecond, hboth, hagain⟩

/-- A filter that can be evaluated keeps the rows for which it holds. -/
theorem Qualifier.filter_eq_ok [Wildcard.Engine] {q : Qualifier}
    (h : ∀ a ∈ rows, ∃ holds, q.evaluate (entity a) = .ok holds) :
    q.filter entity rows = .ok (rows.filter fun a => q.evaluate (entity a) == .ok true) := by
  induction rows with
  | nil => rfl
  | cons a rows ih =>
    obtain ⟨⟨holds, ha⟩, hrows⟩ := List.forall_mem_cons.mp h
    rw [Qualifier.filter, ha, ih hrows, List.filter_cons, ha]
    cases holds <;> rfl

/-- Where a filter can be evaluated and all keys can be read, sorting the filtered rows gives what
filtering the sorted rows gives, in the same order; a fetch gives these rows up to its limit. -/
theorem filter_run_sortInPlace [Wildcard.Engine] (q : Qualifier) (keys : List SortKey)
    (hq : ∀ a ∈ rows, ∃ holds, q.evaluate (entity a) = .ok holds)
    (hread : ∀ a ∈ rows, ∀ k ∈ keys, k.Readable (entity a))
    (hzeros : ∀ k ∈ keys, ¬Value.MixesZeros (ColumnHolds entity rows k)) :
    ∃ kept sorted wanted, q.filter entity rows = .ok kept ∧
      (sortInPlace keys entity).run kept = (.ok (), wanted) ∧
      (sortInPlace keys entity).run rows = (.ok (), sorted) ∧
      q.filter entity sorted = .ok wanted ∧
      ∀ table limit, (⟨table, some q, keys, limit⟩ : Fetch).apply entity rows =
        .ok (Fetch.cut limit wanted) := by
  obtain ⟨cmp, _, h⟩ := exists_orders hread hzeros
  have hsorted : sortBy cmp rows ⊆ rows := (perm_sortBy cmp rows).subset
  have hfilter := Qualifier.filter_eq_ok hq
  have hfilterSorted := Qualifier.filter_eq_ok fun a ha => hq a (hsorted ha)
  rw [filter_sortBy] at hfilterSorted
  have hsort := (h.mono (Qualifier.sublist_of_filter hfilter).subset).sortRows_eq
  refine ⟨_, sortBy cmp rows, _, hfilter, run_eq_ok_iff.mpr hsort,
    run_eq_ok_iff.mpr h.sortRows_eq, hfilterSorted, fun table limit => ?_⟩
  have hkept : (⟨table, some q, keys, limit⟩ : Fetch).kept entity rows = _ := hfilter
  rw [Fetch.apply_eq, hkept]
  exact congrArg (Except.map (Fetch.cut limit)) hsort

/-- The filter does not hold for a row without a year, and two of the rows that it keeps tie. -/
theorem filter_run_sortInPlace_films :
    let _ : Wildcard.Engine := ⟨fun _ => none⟩
    let film (row : String × Value × Int64) : Entity :=
      .mk "film" [("year", .value row.2.1), ("rating", .value (.int row.2.2))]
    let rows := [("Jaws", .null, 4), ("Heat", .int 0, 6), ("Alien", .int 0, 4), ("Tron", .int 0, 4)]
    let q : Qualifier := .property "year" ⟨.greaterOrEqual, .int 0⟩
    let keys := [SortKey.ascending "rating"]
    let wanted := [("Alien", .int 0, 4), ("Tron", .int 0, 4), ("Heat", .int 0, 6)]
    (∀ a ∈ rows, ∃ holds, q.evaluate (film a) = .ok holds) ∧
      (∀ a ∈ rows, ∀ k ∈ keys, k.Readable (film a)) ∧
      (∀ k ∈ keys, ¬Value.MixesZeros (ColumnHolds film rows k)) ∧
      ∃ kept sorted, q.filter film rows = .ok kept ∧
        (sortInPlace keys film).run kept = (.ok (), wanted) ∧
        (sortInPlace keys film).run rows = (.ok (), sorted) ∧
        q.filter film sorted = .ok wanted := by
  intro _ film rows q keys wanted
  have hq : ∀ a ∈ rows, ∃ holds, q.evaluate (film a) = .ok holds := by
    have hholds : ∀ a ∈ rows, q.evaluate (film a) = .ok (a.2.1 == .int 0) := by decide +kernel
    exact fun a ha => ⟨_, hholds a ha⟩
  have hread : ∀ a ∈ rows, ∀ k ∈ keys, k.Readable (film a) := by
    simp only [readable_iff_isSome]
    decide +kernel
  have hnone : ∀ k ∈ keys, ∀ a ∈ rows, k.value (film a) ≠ .ok (.float .zero) := by
    decide +kernel
  have hzeros : ∀ k ∈ keys, ¬Value.MixesZeros (ColumnHolds film rows k) := fun k hk =>
    not_mixesZeros_of_forall_ne (hnone k hk)
  let kept : List (String × Value × Int64) :=
    [("Heat", .int 0, 6), ("Alien", .int 0, 4), ("Tron", .int 0, 4)]
  have hkept : q.filter film rows = .ok kept := by decide +kernel
  have hsub : kept ⊆ rows := (Qualifier.sublist_of_filter hkept).subset
  have horder : IsStableOrder keys film kept (wanted.zip [1, 2, 0]) := by decide +kernel
  have hsort : sortRows keys film kept = .ok wanted :=
    sortRows_eq_of_isStableOrder (fun a ha => hread a (hsub ha))
      (fun k hk => not_mixesZeros_of_forall_ne fun a ha => hnone k hk a (hsub ha)) horder
  obtain ⟨kept', sorted, wanted', hkept', hsort', hsorted, hfilter, -⟩ :=
    filter_run_sortInPlace q keys hq hread hzeros
  obtain rfl : kept' = kept := Except.ok.inj (hkept'.symm.trans hkept)
  obtain rfl : wanted' = wanted := Except.ok.inj ((run_eq_ok_iff.mp hsort').symm.trans hsort)
  exact ⟨hq, hread, hzeros, kept, sorted, hkept', hsort', hsorted, hfilter⟩

end Rows

end FilterLang
