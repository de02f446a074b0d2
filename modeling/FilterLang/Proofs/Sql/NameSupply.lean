import Mathlib.Data.List.Basic
import Mathlib.Data.List.Nodup
import FilterLang.Proofs.Text.Digits
import FilterLang.Sql.NameSupply

/-! A name supply gives out no name twice.

From the second occurrence of a base on, a name ends in an underscore and the digits of the
occurrence, which are kept whole when the base is cut, so occurrences of one base differ. The search
tries more of them than there are names taken, and meets a free one: the limit on its tries is never
what ends it (`search_firstFree`). A supply has taken what it tried (`Tried`), which bounds the
occurrences and with them the suffixes. Main statement: `calls_names_distinct`. -/

namespace FilterLang.Sql.NameSupply

/-! ### Candidates -/

theorem toList_candidate (d : Dialect) (base : String) {n : Nat} (hn : n ≠ 1) :
    ∃ kept, (candidate d base n).toList = kept ++ '_' :: Text.decimal n := by
  rw [candidate, Dialect.parameterName, occurrenceSuffix, if_neg hn]
  exact ⟨_, by rw [String.toList_ofList, String.toList_ofList]⟩

/-- The digits that a name ends in are those of the occurrence. -/
theorem takeWhile_isDigit_candidate (d : Dialect) (base : String) {n : Nat} (hn : n ≠ 1) :
    (candidate d base n).toList.reverse.takeWhile Char.isDigit = (Text.decimal n).reverse := by
  obtain ⟨kept, hkept⟩ := toList_candidate d base hn
  have hdigits : ∀ c ∈ (Text.decimal n).reverse, c.isDigit = true := fun c hc =>
    Text.isDigit_of_mem_decimal (List.mem_reverse.mp hc)
  have hunderscore : ∀ c rest, '_' :: kept.reverse = c :: rest → c.isDigit = false := by
    rintro c rest h
    cases h
    rfl
  rw [hkept, List.reverse_append, List.reverse_cons, List.append_assoc, List.singleton_append]
  exact (Text.takeWhile_append_of_head _ hdigits hunderscore).1

theorem candidate_inj {d : Dialect} {base : String} {n m : Nat} (hn : n ≠ 1) (hm : m ≠ 1)
    (h : candidate d base n = candidate d base m) : n = m := by
  have hdigits : (Text.decimal n).reverse = (Text.decimal m).reverse := by
    rw [← takeWhile_isDigit_candidate d base hn, h, takeWhile_isDigit_candidate d base hm]
  rw [← Text.digitsValue_decimal n, List.reverse_injective hdigits, Text.digitsValue_decimal]

/-- Occurrences behind the first have different names, so not more of them than there are taken
names are taken. -/
theorem le_length_taken {d : Dialect} {base : String} {taken : List String} {n count : Nat}
    (hn : 1 < n) (h : ∀ m, n ≤ m → m < n + count → candidate d base m ∈ taken) :
    count ≤ taken.length := by
  have hnodup : ((List.range' n count).map (candidate d base)).Nodup := by
    refine List.Nodup.map_on ?_ List.nodup_range'
    intro i hi j hj hij
    rw [List.mem_range'_1] at hi hj
    exact candidate_inj (by omega) (by omega) hij
  have hsubset : (List.range' n count).map (candidate d base) ⊆ taken := by
    intro name hname
    obtain ⟨m, hm, rfl⟩ := List.mem_map.mp hname
    rw [List.mem_range'_1] at hm
    exact h m hm.1 hm.2
  have hlength := hnodup.length_le_of_subset hsubset
  rwa [List.length_map, List.length_range'] at hlength

/-- Among two more occurrences than there are taken names one is free. -/
theorem exists_free (d : Dialect) (base : String) (taken : List String) {n : Nat} (hn : 0 < n) :
    ∃ m, n ≤ m ∧ m < n + (taken.length + 2) ∧ candidate d base m ∉ taken := by
  by_contra hnone
  have htaken : ∀ m, n + 1 ≤ m → m < n + 1 + (taken.length + 1) →
      candidate d base m ∈ taken := by
    intro m hle hlt
    by_contra hm
    exact hnone ⟨m, by omega, by omega, hm⟩
  exact Nat.not_succ_le_self _ (le_length_taken (Nat.succ_lt_succ hn) htaken)

/-! ### The search for a free name -/

/-- The search for a free name from an occurrence on, for as long as it takes: it ends at the first
occurrence whose name is not taken. -/
inductive Search (d : Dialect) (base : String) (taken : List String) : Nat → Nat → Prop
  | free {n : Nat} (h : candidate d base n ∉ taken) : Search d base taken n n
  | retry {n m : Nat} (h : candidate d base n ∈ taken) (hs : Search d base taken (n + 1) m) :
    Search d base taken n m

/-- A search with enough fuel is the search without a limit. -/
theorem search_firstFree {d : Dialect} {base : String} {taken : List String} {fuel n : Nat}
    (h : ∃ m, n ≤ m ∧ m < n + fuel ∧ candidate d base m ∉ taken) :
    Search d base taken n (firstFree d base taken fuel n) := by
  induction fuel generalizing n with
  | zero =>
    obtain ⟨m, hle, hlt, -⟩ := h
    omega
  | succ fuel ih =>
    rw [firstFree]
    split
    · rename_i hn
      have hmem : candidate d base n ∈ taken := List.contains_iff_mem.mp hn
      obtain ⟨m, hle, hlt, hm⟩ := h
      have hne : m ≠ n := fun heq => hm (heq ▸ hmem)
      exact .retry hmem (ih ⟨m, by omega, by omega, hm⟩)
    · rename_i hn
      exact .free fun hmem => hn (List.contains_iff_mem.mpr hmem)

namespace Search

variable {d : Dialect} {base : String} {taken : List String} {n m : Nat}

theorem notMem (h : Search d base taken n m) : candidate d base m ∉ taken := by
  induction h with
  | free h => exact h
  | retry _ _ ih => exact ih

/-- What a search passes over is taken. -/
theorem mem_of_lt (h : Search d base taken n m) {k : Nat} (hn : n ≤ k) (hm : k < m) :
    candidate d base k ∈ taken := by
  induction h with
  | free _ => omega
  | @retry n _ hmem _ ih =>
    rcases Nat.lt_or_eq_of_le hn with hlt | rfl
    · exact ih hlt hm
    · exact hmem

end Search

/-- How often a base was tried. -/
def tries (s : NameSupply) (base : String) : Nat := (s.tried.lookup base).getD 0

/-- The occurrence under which a column gets its name. -/
def occurrence (d : Dialect) (column : String) (s : NameSupply) : Nat :=
  firstFree d (sanitize column) s.taken (s.taken.length + 2) (s.tries (sanitize column) + 1)

theorem next_fst (d : Dialect) (column : String) (s : NameSupply) :
    (s.next d column).1 = candidate d (sanitize column) (s.occurrence d column) := rfl

theorem search_occurrence (d : Dialect) (column : String) (s : NameSupply) :
    Search d (sanitize column) s.taken (s.tries (sanitize column) + 1) (s.occurrence d column) :=
  search_firstFree (exists_free d _ s.taken (Nat.succ_pos _))

theorem next_notMem (d : Dialect) (column : String) (s : NameSupply) :
    (s.next d column).1 ∉ s.taken :=
  (s.search_occurrence d column).notMem

@[simp] theorem taken_next (d : Dialect) (column : String) (s : NameSupply) :
    (s.next d column).2.taken = (s.next d column).1 :: s.taken := rfl

theorem lookup_filter_of_ne {base other : String} (h : other ≠ base) (tried : List (String × Nat)) :
    (tried.filter (·.1 != base)).lookup other = tried.lookup other := by
  induction tried with
  | nil => rfl
  | cons entry tried ih =>
    obtain ⟨key, n⟩ := entry
    by_cases hkey : key = base
    · rw [List.filter_cons_of_neg (by simp [hkey]), ih, List.lookup_cons, hkey,
        beq_eq_false_iff_ne.mpr h]
    · rw [List.filter_cons_of_pos (by simpa using hkey), List.lookup_cons, List.lookup_cons, ih]

theorem tries_next (d : Dialect) (column base : String) (s : NameSupply) :
    (s.next d column).2.tries base =
      if base = sanitize column then s.occurrence d column else s.tries base := by
  change (List.lookup base ((sanitize column, s.occurrence d column) ::
    s.tried.filter (·.1 != sanitize column))).getD 0 = _
  split
  · rename_i hbase
    rw [hbase, List.lookup_cons_self, Option.getD_some]
  · rename_i hbase
    rw [List.lookup_cons, beq_eq_false_iff_ne.mpr hbase]
    exact congrArg (Option.getD · 0) (lookup_filter_of_ne hbase s.tried)

/-! ### What a supply has tried -/

/-- A supply that has taken every name it tried. -/
def Tried (d : Dialect) (s : NameSupply) : Prop :=
  ∀ base n, 0 < n → n ≤ s.tries base → candidate d base n ∈ s.taken

theorem Tried.empty (d : Dialect) : Tried d {} := by
  intro base n hpos hle
  exact absurd hpos (Nat.not_lt.mpr hle)

theorem Tried.next {d : Dialect} {s : NameSupply} (h : s.Tried d) (column : String) :
    (s.next d column).2.Tried d := by
  intro base n hpos hle
  rw [tries_next] at hle
  rw [taken_next]
  split at hle
  · rename_i hbase
    subst hbase
    have hsearch := s.search_occurrence d column
    rcases Nat.lt_or_eq_of_le hle with hlt | rfl
    · apply List.mem_cons_of_mem
      by_cases hold : n ≤ s.tries (sanitize column)
      · exact h _ n hpos hold
      · exact hsearch.mem_of_lt (by omega) hlt
    · exact List.mem_cons_self
  · exact List.mem_cons_of_mem _ (h base n hpos hle)

/-- A base was tried at most once more often than names were given out. -/
theorem Tried.tries_le {d : Dialect} {s : NameSupply} (h : s.Tried d) (base : String) :
    s.tries base ≤ s.taken.length + 1 := by
  have hlength : s.tries base - 1 ≤ s.taken.length :=
    le_length_taken (Nat.lt_succ_self 1) fun n hle hlt => h base n (by omega) (by omega)
  omega

theorem Tried.occurrence_le {d : Dialect} {s : NameSupply} (h : s.Tried d) (column : String) :
    s.occurrence d column ≤ s.taken.length + 2 := by
  have htries := (h.next column).tries_le (sanitize column)
  rwa [tries_next, if_pos rfl, taken_next, List.length_cons] at htries

/-! ### The form of a name -/

/-- A name that is written for a base: the mark, as much of the base as there is room for, and all
of the suffix. -/
structure IsNameFor (d : Dialect) (base suffix name : String) : Prop where
  toList_eq : ∃ kept, kept <+: base.toList ∧
    name.toList = d.parameterMark :: (kept ++ suffix.toList)
  length_le : ∀ limit, d.parameterNameLimit? = some limit → name.length ≤ limit

/-- A suffix that leaves room for the mark is kept whole. -/
theorem isNameFor_parameterName (d : Dialect) (base : String) {suffix : String}
    (h : ∀ limit, d.parameterNameLimit? = some limit → suffix.length < limit) :
    IsNameFor d base suffix (d.parameterName base suffix) := by
  cases hlimit : d.parameterNameLimit? with
  | none =>
    refine ⟨⟨base.toList, List.prefix_rfl, ?_⟩, ?_⟩
    · simp [Dialect.parameterName, hlimit]
    · rw [hlimit]
      rintro _ ⟨⟩
  | some limit =>
    have hroom := h limit hlimit
    obtain ⟨room, hsucc⟩ : ∃ room, limit - suffix.length = room + 1 :=
      ⟨limit - suffix.length - 1, by omega⟩
    have hname : (d.parameterName base suffix).toList =
        d.parameterMark :: (base.toList.take room ++ suffix.toList) := by
      simp [Dialect.parameterName, hlimit, hsucc]
    refine ⟨⟨base.toList.take room, List.take_prefix _ _, hname⟩, ?_⟩
    rw [hlimit]
    rintro _ ⟨⟩
    have htake := List.length_take_le room base.toList
    rw [← String.length_toList, hname, List.length_cons, List.length_append, String.length_toList]
    omega

theorem length_occurrenceSuffix_le {n : Nat} (h : n < 2 ^ 64) :
    (occurrenceSuffix n).length ≤ 21 := by
  rw [occurrenceSuffix]
  split
  · exact Nat.zero_le _
  · have hdigits : (Text.decimal n).length ≤ 20 :=
      (Nat.length_toDigits_le_iff (by decide) (by decide)).mpr (Nat.lt_trans h (by decide))
    rw [String.length_ofList, List.length_cons]
    omega

theorem isNameFor_candidate (d : Dialect) (base : String) {n : Nat} (h : n < 2 ^ 64) :
    IsNameFor d base (occurrenceSuffix n) (candidate d base n) := by
  refine isNameFor_parameterName d base fun limit hlimit => ?_
  have hsuffix := length_occurrenceSuffix_le h
  have hthirty : limit = 30 := by
    cases d <;> cases hlimit <;> rfl
  omega

/-- The characters of a name are those of the column, the mark and what suffixes are made of. -/
theorem mem_next {d : Dialect} {column : String} {s : NameSupply} {c : Char}
    (h : c ∈ (s.next d column).1.toList) :
    c ∈ column.toList ∨ c = d.parameterMark ∨ c = '_' ∨ c.isDigit = true := by
  have hname : c ∈ d.parameterMark :: (sanitize column).toList ∨
      c ∈ (occurrenceSuffix (s.occurrence d column)).toList := by
    rw [next_fst, candidate, Dialect.parameterName, String.toList_ofList] at h
    refine (List.mem_append.mp h).imp_left fun hkept => ?_
    split at hkept
    · exact List.mem_of_mem_take hkept
    · exact hkept
  rcases hname with hbase | hsuffix
  · rcases List.mem_cons.mp hbase with hmark | hbase
    · exact .inr (.inl hmark)
    · rw [sanitize, String.toList_ofList, List.mem_map] at hbase
      obtain ⟨c', hc', hsanitized⟩ := hbase
      split at hsanitized
      · exact .inr (.inr (.inl hsanitized.symm))
      · exact .inl (hsanitized ▸ hc')
  · rw [occurrenceSuffix] at hsuffix
    split at hsuffix
    · cases hsuffix
    · rw [String.toList_ofList] at hsuffix
      rcases List.mem_cons.mp hsuffix with hunderscore | hdigit
      · exact .inr (.inr (.inl hunderscore))
      · exact .inr (.inr (.inr (Text.isDigit_of_mem_decimal hdigit)))

/-! ### The calls of a statement -/

/-- A request for the name of a column, and the supply to which it is made. -/
structure Call where
  supply : NameSupply
  column : String

namespace Call

def base (c : Call) : String := sanitize c.column

/-- The name given out. -/
def name (d : Dialect) (c : Call) : String := (c.supply.next d c.column).1

end Call

/-- The requests made in a statement for columns in turn. -/
def calls (d : Dialect) : List String → NameSupply → List Call
  | [], _ => []
  | column :: columns, s => ⟨s, column⟩ :: calls d columns (s.next d column).2

theorem names_notMem {d : Dialect} {columns : List String} {s : NameSupply} {c : Call}
    (h : c ∈ calls d columns s) : c.name d ∉ s.taken := by
  induction columns generalizing s with
  | nil => cases h
  | cons column columns ih =>
    rcases List.mem_cons.mp h with rfl | h
    · exact s.next_notMem d column
    · exact fun hmem => ih h (List.mem_cons_of_mem _ hmem)

theorem names_nodup (d : Dialect) (columns : List String) (s : NameSupply) :
    ((calls d columns s).map (Call.name d)).Nodup := by
  induction columns generalizing s with
  | nil => exact List.nodup_nil
  | cons column columns ih =>
    rw [calls, List.map_cons, List.nodup_cons]
    refine ⟨fun hmem => ?_, ih _⟩
    obtain ⟨c, hc, hname⟩ := List.mem_map.mp hmem
    apply names_notMem hc
    rw [hname, taken_next]
    exact List.mem_cons_self

/-- The supplies in a statement have taken what they tried, and no more names than the statement
has columns. -/
theorem tried_of_mem_calls {d : Dialect} {columns : List String} {s : NameSupply} {c : Call}
    (h : c ∈ calls d columns s) (hs : s.Tried d) :
    c.supply.Tried d ∧ c.supply.taken.length < s.taken.length + columns.length := by
  induction columns generalizing s with
  | nil => cases h
  | cons column columns ih =>
    rw [List.length_cons]
    rcases List.mem_cons.mp h with rfl | h
    · exact ⟨hs, by dsimp only; omega⟩
    · obtain ⟨htried, hlength⟩ := ih h (hs.next column)
      rw [taken_next, List.length_cons] at hlength
      exact ⟨htried, by omega⟩

/-- Each search ends, at an occurrence that is at most one above the number of columns. -/
theorem exists_search_of_mem_calls {d : Dialect} {columns : List String} {c : Call}
    (hc : c ∈ calls d columns {}) :
    ∃ n ≤ columns.length + 1, Search d c.base c.supply.taken (c.supply.tries c.base + 1) n ∧
      c.name d = candidate d c.base n := by
  obtain ⟨htried, hlength⟩ := tried_of_mem_calls hc (Tried.empty d)
  have hafter := (htried.next c.column).tries_le (sanitize c.column)
  rw [tries_next, if_pos rfl, taken_next, List.length_cons] at hafter
  refine ⟨c.supply.occurrence d c.column, ?_, c.supply.search_occurrence d c.column, rfl⟩
  have hempty : ({} : NameSupply).taken.length = 0 := rfl
  omega

/-- Where names are limited, they have at most 30 characters. -/
theorem length_name_le_thirty {d : Dialect} (hd : d = .oracle ∨ ∃ quotes, d = .postgres quotes)
    {columns : List String} (hcolumns : columns.length + 1 < 2 ^ 64) {c : Call}
    (hc : c ∈ calls d columns {}) : (c.name d).length ≤ 30 := by
  have hlimit : d.parameterNameLimit? = some 30 := by
    rcases hd with rfl | ⟨quotes, rfl⟩
    · rfl
    · rfl
  obtain ⟨n, hn, -, hname⟩ := exists_search_of_mem_calls hc
  rw [hname]
  exact (isNameFor_candidate d c.base (Nat.lt_of_le_of_lt hn hcolumns)).length_le 30 hlimit

/-- The names of a statement differ. Each search for one ends, at an occurrence that is at most one
above the number of columns, and as long as occurrences have 64 bits the name has the mark, the
suffix of the occurrence and no more characters than are allowed. -/
theorem calls_names_distinct (d : Dialect) (columns : List String) :
    ((calls d columns {}).map (Call.name d)).Nodup ∧
      ∀ c ∈ calls d columns {}, ∃ n ≤ columns.length + 1,
        Search d c.base c.supply.taken (c.supply.tries c.base + 1) n ∧
          c.name d = candidate d c.base n ∧
          (n < 2 ^ 64 → IsNameFor d c.base (occurrenceSuffix n) (c.name d)) := by
  refine ⟨names_nodup d columns {}, fun c hc => ?_⟩
  obtain ⟨n, hn, hsearch, hname⟩ := exists_search_of_mem_calls hc
  refine ⟨n, hn, hsearch, hname, fun hbits => ?_⟩
  rw [hname]
  exact isNameFor_candidate d c.base hbits

/-- A column that is named like a suffix keeps its name. -/
example : (calls .oracle ["Year", "Year_2", "Year"] {}).map (Call.name .oracle) =
    [":Year", ":Year_2", ":Year_3"] := by decide +kernel

end FilterLang.Sql.NameSupply
