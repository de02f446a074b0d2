import Mathlib.Data.List.FinRange
import FilterLang.Fetch.Basic
import FilterLang.Proofs.Evaluation.Absence

/-! What a row limit changes.

A fetch filters, sorts and then cuts, so its limit decides neither whether it fails nor how: it is
the fetch without a limit, cut (`apply_eq_map_cut`). What a row is does not matter to a fetch
(`apply_map`), so the positions of the rows may be fetched in their place; without a limit these are
the positions of the rows that are wanted, once each. Main statement: `apply_withLimit`. -/

namespace FilterLang

variable {α β : Type} {entity : α → Entity} {rows : List α}

namespace Qualifier

variable [Wildcard.Engine]

theorem filter_map (q : Qualifier) (entity : α → Entity) (g : β → α) (rows : List β) :
    q.filter entity (rows.map g) = (q.filter (entity ∘ g) rows).map (List.map g) := by
  induction rows with
  | nil => rfl
  | cons b rows ih =>
    rw [List.map_cons, filter, filter, ih, Function.comp_apply]
    cases q.evaluate (entity (g b)) with
    | error err => rfl
    | ok holds =>
      cases holds with
      | false => rfl
      | true => cases q.filter (entity ∘ g) rows <;> rfl

/-- Filtering keeps the rows for which the filter holds. -/
theorem mem_of_filter {q : Qualifier} {kept : List α} (h : q.filter entity rows = .ok kept)
    (a : α) : a ∈ kept ↔ a ∈ rows ∧ q.evaluate (entity a) = .ok true := by
  induction rows generalizing kept with
  | nil =>
    cases h
    exact ⟨nofun, nofun⟩
  | cons b rows ih =>
    rw [filter] at h
    split at h
    · rename_i hb
      cases hrest : q.filter entity rows with
      | error err => rw [hrest] at h; cases h
      | ok others =>
        rw [hrest] at h
        cases h
        rw [List.mem_cons, List.mem_cons, ih hrest, or_and_right]
        refine or_congr_left (iff_self_and.mpr ?_)
        rintro rfl
        exact hb
    · rename_i hb
      rw [List.mem_cons, ih h, or_and_right, or_iff_right]
      rintro ⟨rfl, ha⟩
      cases hb.symm.trans ha
    · cases h

end Qualifier

theorem SortKey.decorate_map (keys : List SortKey) (entity : α → Entity) (g : β → α)
    (rows : List β) :
    decorate keys entity (rows.map g) =
      (decorate keys (entity ∘ g) rows).map (List.map (Prod.map id g)) := by
  induction rows with
  | nil => rfl
  | cons b rows ih =>
    rw [List.map_cons, decorate, decorate, ih, Function.comp_apply]
    cases values keys (entity (g b)) with
    | error err => rfl
    | ok vs => cases decorate keys (entity ∘ g) rows <;> rfl

theorem sortRows_map (keys : List SortKey) (entity : α → Entity) (g : β → α) (rows : List β) :
    sortRows keys entity (rows.map g) = (sortRows keys (entity ∘ g) rows).map (List.map g) := by
  rw [sortRows, sortRows, List.length_map]
  split
  · rfl
  · rw [SortKey.decorate_map]
    cases SortKey.decorate keys (entity ∘ g) rows with
    | error err => rfl
    | ok ds =>
      simp only [Except.map]
      rw [← List.map_mergeSort (f := Prod.map id g)
        (r := fun a b => SortKey.compareValues keys a.1 b.1 != .gt) fun _ _ _ _ => rfl,
        List.map_map, List.map_map]
      rfl

/-- Sorting neither adds nor loses rows. -/
theorem perm_of_sortRows {keys : List SortKey} {sorted : List α}
    (h : sortRows keys entity rows = .ok sorted) : sorted.Perm rows := by
  rw [sortRows] at h
  split at h
  · cases h
    exact .refl _
  · cases hds : SortKey.decorate keys entity rows with
    | error err => rw [hds] at h; cases h
    | ok ds =>
      rw [hds] at h
      cases h
      rw [← (SortKey.decorate_spec hds).1]
      exact (List.mergeSort_perm ds _).map _

namespace Fetch

/-- The fetch with another row limit. -/
def withLimit (f : Fetch) (limit : Int) : Fetch := { f with rowLimit := limit }

/-- The rows that a limit leaves. -/
def cut (limit : Int) (rows : List α) : List α := if 0 ≤ limit then rows.take limit.toNat else rows

theorem limit?_elim (f : Fetch) (rows : List α) :
    f.limit?.elim rows rows.take = cut f.rowLimit rows := by
  rw [limit?, cut]
  split <;> rfl

theorem cut_map (limit : Int) (g : β → α) (rows : List β) :
    cut limit (rows.map g) = (cut limit rows).map g := by
  rw [cut, cut]
  split
  · exact List.map_take.symm
  · rfl

theorem cut_of_neg {limit : Int} (h : limit < 0) (rows : List α) : cut limit rows = rows :=
  if_neg (Int.not_le.mpr h)

theorem cut_natCast (n : Nat) (rows : List α) : cut n rows = rows.take n := by
  rw [cut, if_pos (Int.natCast_nonneg n), Int.toNat_natCast]

section Apply

variable [Wildcard.Engine]

/-- Whether a fetch wants an object: its filter, if it has one, holds for it. -/
def Wants (f : Fetch) (e : Entity) : Prop := ∀ q ∈ f.qualifier, q.evaluate e = .ok true

/-- The rows that pass the filter, if there is one. -/
def kept (f : Fetch) (entity : α → Entity) (rows : List α) : Except EvaluationError (List α) :=
  match f.qualifier with
  | some q => q.filter entity rows
  | none => .ok rows

theorem apply_eq (f : Fetch) (entity : α → Entity) (rows : List α) :
    f.apply entity rows = (f.kept entity rows).bind fun kept =>
      (sortRows f.sortKeys entity kept).map (cut f.rowLimit) := by
  have hcut : cut f.rowLimit = fun rows : List α => f.limit?.elim rows rows.take :=
    funext fun rows => (f.limit?_elim rows).symm
  have hmap : ∀ (g : List α → List α) (kept : List α),
      (sortRows f.sortKeys entity kept >>= fun sorted => Except.ok (g sorted)) =
        (sortRows f.sortKeys entity kept).map g := by
    intro g kept
    cases sortRows f.sortKeys entity kept <;> rfl
  rw [apply, kept, hcut]
  cases f.limit? with
  | none =>
    cases f.qualifier with
    | none => exact hmap id rows
    | some q => exact congrArg (Except.bind (q.filter entity rows)) (funext (hmap id))
  | some n =>
    cases f.qualifier with
    | none => exact hmap (List.take n) rows
    | some q => exact congrArg (Except.bind (q.filter entity rows)) (funext (hmap (List.take n)))

theorem kept_map (f : Fetch) (entity : α → Entity) (g : β → α) (rows : List β) :
    f.kept entity (rows.map g) = (f.kept (entity ∘ g) rows).map (List.map g) := by
  rw [kept, kept]
  cases f.qualifier with
  | none => rfl
  | some q => exact q.filter_map entity g rows

/-- A fetch looks at the objects that rows are, and at nothing else of them. -/
theorem apply_map (f : Fetch) (entity : α → Entity) (g : β → α) (rows : List β) :
    f.apply entity (rows.map g) = (f.apply (entity ∘ g) rows).map (List.map g) := by
  rw [apply_eq, apply_eq, kept_map]
  cases f.kept (entity ∘ g) rows with
  | error err => rfl
  | ok kept =>
    change (sortRows f.sortKeys entity (kept.map g)).map _ = _
    rw [sortRows_map]
    cases hsort : sortRows f.sortKeys (entity ∘ g) kept with
    | error err => simp [Except.bind, Except.map, hsort]
    | ok sorted => simp [Except.bind, Except.map, hsort, cut_map]

/-- A fetch is the same fetch without a limit, cut. -/
theorem apply_eq_map_cut (f : Fetch) (entity : α → Entity) (rows : List α) {unbounded : Int}
    (h : unbounded < 0) (limit : Int) :
    (f.withLimit limit).apply entity rows =
      ((f.withLimit unbounded).apply entity rows).map (cut limit) := by
  have hkept : ∀ limit, (f.withLimit limit).kept entity rows = f.kept entity rows := fun _ => rfl
  rw [apply_eq, apply_eq, hkept, hkept]
  cases f.kept entity rows with
  | error err => rfl
  | ok kept =>
    simp only [Except.bind, withLimit]
    cases sortRows f.sortKeys entity kept with
    | error err => rfl
    | ok sorted => simp only [Except.map, cut_of_neg h]

/-- Without a limit, a fetch gives the rows that it wants in another order. -/
theorem exists_perm_of_apply {f : Fetch} {all : List α} (hlimit : f.rowLimit < 0)
    (h : f.apply entity rows = .ok all) :
    ∃ kept : List α, all.Perm kept ∧ kept.Sublist rows ∧
      ∀ a, a ∈ kept ↔ a ∈ rows ∧ f.Wants (entity a) := by
  rw [apply_eq] at h
  cases hkept : f.kept entity rows with
  | error err => rw [hkept] at h; cases h
  | ok kept =>
    rw [hkept] at h
    simp only [Except.bind] at h
    cases hsort : sortRows f.sortKeys entity kept with
    | error err => rw [hsort] at h; cases h
    | ok sorted =>
      rw [hsort] at h
      cases h
      rw [cut_of_neg hlimit]
      refine ⟨kept, perm_of_sortRows hsort, ?_⟩
      rw [Fetch.kept] at hkept
      split at hkept
      · rename_i q hq
        refine ⟨Qualifier.sublist_of_filter hkept, fun a => ?_⟩
        simp [Qualifier.mem_of_filter hkept, Wants, hq]
      · rename_i hq
        cases hkept
        exact ⟨.refl _, fun a => by simp [Wants, hq]⟩

/-- Whatever its limit, a fetch fails as it does without one; otherwise it gives that many of the
rows that come without a limit, from the first on. Those are the rows at the positions at which the
filter holds, each of them once. -/
theorem apply_withLimit (f : Fetch) (entity : α → Entity) (rows : List α) {unbounded : Int}
    (h : unbounded < 0) :
    (∀ limit e, (f.withLimit limit).apply entity rows = .error e ↔
      (f.withLimit unbounded).apply entity rows = .error e) ∧
    ∀ all, (f.withLimit unbounded).apply entity rows = .ok all →
      (∀ n : Nat, (f.withLimit n).apply entity rows = .ok (all.take (min n all.length))) ∧
      ∃ positions : List (Fin rows.length),
        (f.withLimit unbounded).apply (fun i => entity rows[i]) (List.finRange rows.length) =
          .ok positions ∧
        all = positions.map (fun i => rows[i]) ∧ positions.Nodup ∧
          ∀ i, i ∈ positions ↔ f.Wants (entity rows[i]) := by
  refine ⟨fun limit e => ?_, fun all hall => ⟨fun n => ?_, ?_⟩⟩
  · rw [apply_eq_map_cut f entity rows h]
    cases (f.withLimit unbounded).apply entity rows <;> simp [Except.map]
  · rw [apply_eq_map_cut f entity rows h, hall, ← List.take_eq_take_min, Except.map, cut_natCast]
  · have hmap := (f.withLimit unbounded).apply_map entity (fun i : Fin rows.length => rows[i])
      (List.finRange rows.length)
    have hrows : (List.finRange rows.length).map (fun i => rows[i]) = rows :=
      List.map_getElem_finRange rows
    rw [hrows, hall] at hmap
    cases hpositions : (f.withLimit unbounded).apply (entity ∘ fun i : Fin rows.length => rows[i])
        (List.finRange rows.length) with
    | error e => rw [hpositions] at hmap; cases hmap
    | ok positions =>
      rw [hpositions] at hmap
      obtain ⟨kept, hperm, hsublist, hmem⟩ :=
        exists_perm_of_apply (f := f.withLimit unbounded) h hpositions
      refine ⟨positions, hpositions, Except.ok.inj hmap, ?_, fun i => ?_⟩
      · exact hperm.nodup_iff.mpr (hsublist.nodup (List.nodup_finRange _))
      · rw [hperm.mem_iff, hmem]
        exact and_iff_right (List.mem_finRange i)

end Apply

/-- Two films have one year, and their rows are equal. -/
theorem apply_withLimit_films :
    let _ : Wildcard.Engine := ⟨fun _ => none⟩
    let film (row : String × Int64) : Entity :=
      .mk "film" [("title", .value (.text row.1)), ("year", .value (.int row.2))]
    let rows : List (String × Int64) :=
      [("Jaws", 1975), ("Alien", 1979), ("Heat", 1995), ("Alien", 1979), ("Tron", 1982)]
    let f : Fetch :=
      ⟨⟨"film", []⟩, some (.property "year" ⟨.lessThan, .int 1982⟩), [.descending "year"], 2⟩
    let all := [("Alien", 1979), ("Alien", 1979), ("Jaws", 1975)]
    (-7 : Int) < 0 ∧ (f.withLimit (-7)).apply film rows = .ok all ∧
      (∀ n : Nat, (f.withLimit n).apply film rows = .ok (all.take (min n 3))) ∧
      ∃ positions : List (Fin rows.length), all = positions.map (fun i => rows[i]) ∧
        positions.Nodup ∧ ∀ i, i ∈ positions ↔ f.Wants (film rows[i]) := by
  intro _ film rows f all
  have hnegative : (-7 : Int) < 0 := by decide
  let kept : List (String × Int64) := [("Jaws", 1975), ("Alien", 1979), ("Alien", 1979)]
  have hkept : f.kept film rows = .ok kept := by decide +kernel
  have hread : ∀ a ∈ kept, ∀ k ∈ f.sortKeys, k.Readable (film a) := by
    simp only [SortKey.readable_iff_isSome]
    decide +kernel
  have hnone : ∀ k ∈ f.sortKeys, ∀ a ∈ kept, k.value (film a) ≠ .ok (.float .zero) := by
    decide +kernel
  have horder : SortKey.IsStableOrder f.sortKeys film kept (all.zip [1, 2, 0]) := by
    decide +kernel
  have hsort : sortRows f.sortKeys film kept = .ok all :=
    sortRows_eq_of_isStableOrder hread
      (fun k hk => SortKey.not_mixesZeros_of_forall_ne (hnone k hk)) horder
  have hall : (f.withLimit (-7)).apply film rows = .ok all := by
    rw [apply_eq]
    change (f.kept film rows).bind _ = _
    rw [hkept]
    exact congrArg (Except.map (cut (-7))) hsort
  obtain ⟨hlimits, positions, -, hpositions⟩ :=
    (f.apply_withLimit film rows hnegative).2 all hall
  exact ⟨hnegative, hall, hlimits, positions, hpositions⟩

end Fetch

end FilterLang
