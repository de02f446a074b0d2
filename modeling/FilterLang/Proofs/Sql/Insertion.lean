import FilterLang.Proofs.Sql.Failure
import FilterLang.Proofs.Sql.Unambiguity

/-! Insertions: which values are written, when none are, and that columns and values stay in step.

The names of the columns and the parameters are collected apart from each other, but over one list
of values, those of columns that the database does not make (`insertedValues_eq`). What can fail is
found out in a fixed order: the key of the table cannot be read, a value cannot be bound, nothing is
left to write (`InsertFails`). Main statement: `compileInsert_aligned`. -/

namespace FilterLang

/-- The database makes the values for a name: the first column with the name is generated. -/
def Table.Generates (t : Table) (name : String) : Prop :=
  ∃ c, t.Describes name c ∧ c.generated = true

/-- The key that the database makes: the first column of the key that is generated. -/
def Table.IsGeneratedKey (t : Table) (key : Column) : Prop :=
  (key.primaryKey = true ∧ key.generated = true) ∧ ∃ before after,
    t.columns = before ++ key :: after ∧
      ∀ c ∈ before, ¬(c.primaryKey = true ∧ c.generated = true)

theorem Table.generates_iff {t : Table} {name : String} :
    t.Generates name ↔ (t.column? name).any (·.generated) = true := by
  simp only [Generates, ← column?_eq_some_iff, Option.any_eq_true]

instance (t : Table) (name : String) : Decidable (t.Generates name) :=
  decidable_of_iff _ Table.generates_iff.symm

theorem Table.generatedKey?_eq_some_iff {t : Table} {key : Column} :
    t.generatedKey? = some key ↔ t.IsGeneratedKey key := by
  simp only [generatedKey?, primaryKeys, List.find?_filter, List.find?_eq_some_iff_append,
    IsGeneratedKey, decide_eq_true_eq, Bool.not_eq_true', decide_eq_false_iff_not]

theorem Table.IsGeneratedKey.unique {t : Table} {key key' : Column} (h : t.IsGeneratedKey key)
    (h' : t.IsGeneratedKey key') : key = key' :=
  Option.some.inj ((generatedKey?_eq_some_iff.mpr h).symm.trans (generatedKey?_eq_some_iff.mpr h'))

namespace Sql

/-- The first of values whose column the table describes with a type that the dialect does not map
is not bound, and why. -/
def FirstUnmapped (d : Dialect) (t : Table) (values : List (String × Value)) (e : CompileError) :
    Prop :=
  ∃ before name v after c, values = before ++ (name, v) :: after ∧ t.Describes name c ∧
    ¬d.Maps c.type ∧ e = .unmappableType d.name name c.type ∧
      ∀ other ∈ before, ∀ c', t.Describes other.1 c' → d.Maps c'.type

/-- The table has a key that the database makes and the dialect does not read. One dialect reads no
keys. -/
def KeyUnreadable (d : Dialect) (t : Table) : Prop := d = .oracle ∧ ∃ key, t.IsGeneratedKey key

/-- Why values are not inserted, in the order in which it is found out. -/
inductive InsertFails (d : Dialect) (t : Table) (values : List (String × Value)) :
    CompileError → Prop
  | unreadableKey {key : Column} (hd : d = .oracle) (hkey : t.IsGeneratedKey key) :
    InsertFails d t values (.unreadableKey d.name t.name key.name)
  | unmappableType {e : CompileError} (hkey : ¬KeyUnreadable d t)
    (h : FirstUnmapped d t values e) : InsertFails d t values e
  | nothingToWrite (hkey : ¬KeyUnreadable d t) (h : values = []) :
    InsertFails d t values (.nothingToWrite .insert t.name)

/-- The text of an insertion with the given columns and placeholders. -/
def insertionText (d : Dialect) (table : String) (columns placeholders : List String) : String :=
  "INSERT INTO " ++ d.identifier table ++ " (" ++ ", ".intercalate (columns.map d.identifier) ++
    ") VALUES (" ++ ", ".intercalate placeholders ++ ")"

/-- The text behind an insertion: the query for the key where the database makes one. -/
inductive RetrievesKey (d : Dialect) (t : Table) : String → Prop
  | none (h : ∀ key, ¬t.IsGeneratedKey key) : RetrievesKey d t ""
  | query {key : Column} {q : KeyQuery} (hkey : t.IsGeneratedKey key)
    (hq : d.keyQuery t.name key.name = .ok q) : RetrievesKey d t ("; " ++ q.sql)

namespace Fragment

theorem text_append (d : Dialect) (f g : Fragment) : text d (f ++ g) = text d f ++ text d g := by
  rw [← String.toList_inj, toList_text_append, String.toList_append]

theorem text_cons (d : Dialect) (piece : Piece) (f : Fragment) :
    text d (piece :: f) = piece.text d ++ text d f := by
  rw [← String.toList_inj, toList_text_cons, String.toList_append]

theorem text_singleton (d : Dialect) (piece : Piece) : text d [piece] = piece.text d := by
  rw [text_cons, text_nil, String.append_empty]

theorem text_separate (d : Dialect) (separator : String) (fs : List Fragment) :
    text d (separate separator fs) = separator.intercalate (fs.map (text d)) := by
  induction fs with
  | nil => rfl
  | cons f rest ih =>
    cases rest with
    | nil => rw [separate, List.map_singleton, String.intercalate_singleton]
    | cons g rest =>
      have hne : (g :: rest).map (text d) ≠ [] := List.cons_ne_nil _ _
      rw [separate, text_append, text_cons, ih, List.map_cons (l := g :: rest),
        String.intercalate_cons_of_ne_nil hne, String.append_assoc, Piece.text]
      nofun

end Fragment

variable {d : Dialect} {t : Table} {values : List (String × Value)}

/-- The values inserted are those whose names the database does not make values for. -/
theorem insertedValues_eq (t : Table) (values : List (String × Value)) :
    insertedValues t values = values.filter fun v => ¬t.Generates v.1 := by
  refine List.filter_congr fun v _ => ?_
  rw [Bool.eq_iff_iff, decide_eq_true_iff, Table.generates_iff, Bool.not_eq_true',
    Bool.not_eq_true]

theorem unmapped?_eq_none_iff {name : String} :
    unmapped? d t name = none ↔ ∀ c, t.Describes name c → d.Maps c.type := by
  rw [Option.eq_none_iff_forall_ne_some]
  constructor
  · intro h c hc
    by_contra htype
    exact h _ (unmapped?_eq_some_iff.mpr ⟨c, hc, htype, rfl⟩)
  · intro h e he
    obtain ⟨c, hc, htype, -⟩ := unmapped?_eq_some_iff.mp he
    exact htype (h c hc)

/-- Values are bound one after the other, up to the first that is not. -/
theorem error?_bindAll (d : Dialect) (t : Table) (values : List (String × Value)) (b : Binder) :
    error? (bindAll d t values b) = values.findSome? fun v => unmapped? d t v.1 := by
  induction values generalizing b with
  | nil => rfl
  | cons first rest ih =>
    obtain ⟨column, v⟩ := first
    rw [List.findSome?_cons, ← error?_bind column v b, bindAll]
    cases b.bind d t column v with
    | error e => rfl
    | ok result =>
      obtain ⟨name, b⟩ := result
      rw [← ih b]
      cases hrest : bindAll d t rest b <;> simp [hrest, error?]

theorem bindAll_eq_error_iff {b : Binder} {e : CompileError} :
    bindAll d t values b = .error e ↔ FirstUnmapped d t values e := by
  rw [← error?_eq_some_iff, error?_bindAll, List.findSome?_eq_some_iff]
  simp only [unmapped?_eq_some_iff, unmapped?_eq_none_iff]
  constructor
  · rintro ⟨before, ⟨name, v⟩, after, hsplit, ⟨c, hc, htype, rfl⟩, hbefore⟩
    exact ⟨before, name, v, after, c, hsplit, hc, htype, rfl, hbefore⟩
  · rintro ⟨before, name, v, after, c, hsplit, hc, htype, rfl, hbefore⟩
    exact ⟨before, (name, v), after, hsplit, ⟨c, hc, htype, rfl⟩, hbefore⟩

theorem exists_bindAll_eq_ok_iff {b : Binder} :
    (∃ result, bindAll d t values b = .ok result) ↔
      ∀ v ∈ values, ∀ c, t.Describes v.1 c → d.Maps c.type := by
  rw [← error?_eq_none_iff, error?_bindAll, List.findSome?_eq_none_iff]
  simp only [unmapped?_eq_none_iff]

theorem keyQuery_eq_error_iff {table column : String} {e : CompileError} :
    d.keyQuery table column = .error e ↔ d = .oracle ∧ e = .unreadableKey d.name table column := by
  cases d <;> simp [Dialect.keyQuery, eq_comm]

theorem insertedKey?_eq_error_iff {e : CompileError} :
    insertedKey? d t = .error e ↔
      d = .oracle ∧ ∃ key, t.IsGeneratedKey key ∧ e = .unreadableKey d.name t.name key.name := by
  simp only [← Table.generatedKey?_eq_some_iff]
  rw [insertedKey?]
  cases t.generatedKey? with
  | none => simp
  | some key =>
    rw [map_eq_error_iff, keyQuery_eq_error_iff]
    simp

theorem exists_insertedKey?_eq_ok_iff :
    (∃ key, insertedKey? d t = .ok key) ↔ ¬KeyUnreadable d t := by
  have herror : (∃ e, insertedKey? d t = .error e) ↔ KeyUnreadable d t := by
    simp [insertedKey?_eq_error_iff, KeyUnreadable]
  rw [← herror]
  cases insertedKey? d t <;> simp

theorem insertedKey?_ok {key : Option KeyQuery} (h : insertedKey? d t = .ok key) :
    RetrievesKey d t ((keyFragment key).text d) := by
  rw [insertedKey?] at h
  split at h
  · rename_i hnone
    cases h
    refine .none fun key hkey => ?_
    rw [Table.generatedKey?_eq_some_iff.mpr hkey] at hnone
    cases hnone
  · rename_i column hcolumn
    obtain ⟨q, hq, rfl⟩ := exists_of_map_eq_ok h
    exact .query (Table.generatedKey?_eq_some_iff.mp hcolumn) hq

theorem text_insertion (table : String) (names : List String) (f : Fragment) :
    Fragment.text d ([.keyword "INSERT INTO ", .identifier table, .keyword " ("] ++
        Fragment.separate ", " (values.map fun v => [.identifier v.1]) ++
        [.keyword ") VALUES ("] ++ Fragment.separate ", " (names.map fun n => [.parameter n]) ++
        [.keyword ")"] ++ f) =
      insertionText d table (values.map Prod.fst) names ++ f.text d := by
  have hcolumns : (values.map fun v => [Piece.identifier v.1]).map (Fragment.text d) =
      (values.map Prod.fst).map d.identifier := by
    simp only [List.map_map, Function.comp_def, Fragment.text_singleton, Piece.text]
  have hnames : (names.map fun n => [Piece.parameter n]).map (Fragment.text d) = names := by
    simp only [List.map_map, Function.comp_def, Fragment.text_singleton, Piece.text, List.map_id']
  have hhead : Fragment.text d [.keyword "INSERT INTO ", .identifier table, .keyword " ("] =
      "INSERT INTO " ++ (d.identifier table ++ " (") := by
    rw [Fragment.text_cons, Fragment.text_cons, Fragment.text_singleton]
    rfl
  unfold insertionText
  simp only [Fragment.text_append, hhead, Fragment.text_separate, hcolumns, hnames,
    Fragment.text_singleton, Piece.text, String.append_assoc]

/-- An insertion names its columns and parameters, and the query for the key follows. -/
theorem compileInsert_sql {c : Command} (h : compileInsert d t values = .ok c) :
    ∃ retrieval, RetrievesKey d t retrieval ∧
      c.sql = insertionText d t.name ((insertedValues t values).map Prod.fst)
        (c.parameters.map (·.name)) ++ retrieval := by
  obtain ⟨key, names, b, hkey, -, hbind, rfl⟩ := compileInsert_ok h
  have hnames : names = b.parameters.map (·.name) := by
    simpa using (bindAll_binds hbind).names.symm
  refine ⟨_, insertedKey?_ok hkey, ?_⟩
  rw [← hnames]
  exact text_insertion t.name names (keyFragment key)

theorem InsertFails.of_compileInsert {e : CompileError}
    (h : compileInsert d t values = .error e) : InsertFails d t (insertedValues t values) e := by
  rw [compileInsert] at h
  split at h
  · rename_i hkey
    cases h
    obtain ⟨hd, key, hgenerated, rfl⟩ := insertedKey?_eq_error_iff.mp hkey
    exact .unreadableKey hd hgenerated
  · rename_i key hkey
    have hreadable : ¬KeyUnreadable d t := exists_insertedKey?_eq_ok_iff.mp ⟨key, hkey⟩
    dsimp only at h
    split at h
    · rename_i hbind
      cases h
      exact .unmappableType hreadable (bindAll_eq_error_iff.mp hbind)
    · split at h
      · rename_i hempty
        cases h
        exact .nothingToWrite hreadable (List.isEmpty_iff.mp hempty)
      · cases h

theorem InsertFails.compileInsert_eq {e : CompileError}
    (h : InsertFails d t (insertedValues t values) e) : compileInsert d t values = .error e := by
  cases h with
  | unreadableKey hd hkey =>
    rw [compileInsert, insertedKey?_eq_error_iff.mpr ⟨hd, _, hkey, rfl⟩]
  | unmappableType hreadable h =>
    obtain ⟨key, hkey⟩ := exists_insertedKey?_eq_ok_iff.mpr hreadable
    rw [compileInsert, hkey]
    dsimp only
    rw [bindAll_eq_error_iff.mpr h]
  | nothingToWrite hreadable hnil =>
    obtain ⟨key, hkey⟩ := exists_insertedKey?_eq_ok_iff.mpr hreadable
    rw [compileInsert, hkey, hnil]
    rfl

theorem exists_compileInsert_eq_ok_iff :
    (∃ c, compileInsert d t values = .ok c) ↔ ¬KeyUnreadable d t ∧ insertedValues t values ≠ [] ∧
      ∀ v ∈ insertedValues t values, ∀ c, t.Describes v.1 c → d.Maps c.type := by
  rw [← exists_insertedKey?_eq_ok_iff, ← exists_bindAll_eq_ok_iff (b := {})]
  constructor
  · rintro ⟨c, hc⟩
    obtain ⟨key, names, b, hkey, hkept, hbind, -⟩ := compileInsert_ok hc
    exact ⟨⟨key, hkey⟩, hkept, _, hbind⟩
  · rintro ⟨⟨key, hkey⟩, hkept, ⟨names, b⟩, hbind⟩
    have hempty : (insertedValues t values).isEmpty = false := List.isEmpty_eq_false_iff.mpr hkept
    rw [compileInsert, hkey]
    dsimp only
    rw [hbind, hempty]
    exact ⟨_, rfl⟩

end Sql

end FilterLang
