import FilterLang.Proofs.Sql.Insertion
import FilterLang.Proofs.Sql.Quoting

/-! The query for the value of a sequence, read back.

A sequence is named by a literal in single quotes, in which two quotes stand for one. A reader of
such queries gets a name from the text that writes its quotes twice, and from no other text
(`readSequence?_eq_some_iff`). The name of a sequence is put between the quotes as it is, so what is
read is not what was written as soon as the table or the column has a quote in its name. Main
statement: `readSequence?_keyQuery_iff`. -/

namespace FilterLang.Sql

/-- Characters with each quote among them written twice. -/
def doubled (quote : Char) (cs : List Char) : List Char :=
  cs.flatMap fun c => if c = quote then [c, c] else [c]

/-- A text as a literal: in single quotes, and each single quote in it written twice. -/
def literal (text : String) : String :=
  String.ofList ('\'' :: (doubled '\'' text.toList ++ ['\'']))

/-- Reads a literal: the text for which it stands, and what is behind it. -/
def readLiteral? : List Char → Option (List Char × List Char)
  | [] => none
  | c :: cs => if c = '\'' then readToClosing? '\'' cs else none

/-- Reads a query for the value of a sequence that is named by a literal and nothing else. -/
def readSequence? (sql : String) : Option String :=
  ("SELECT currval(".toList.isPrefixOf? sql.toList).bind fun argument =>
    (readLiteral? argument).bind fun (name, rest) =>
      if rest = [')'] then some (String.ofList name) else none

section Doubled

variable {quote : Char}

theorem doubled_cons_self (cs : List Char) :
    doubled quote (quote :: cs) = quote :: quote :: doubled quote cs := by
  rw [doubled, List.flatMap_cons, if_pos rfl]
  rfl

theorem doubled_cons_of_ne {c : Char} (hc : c ≠ quote) (cs : List Char) :
    doubled quote (c :: cs) = c :: doubled quote cs := by
  rw [doubled, List.flatMap_cons, if_neg hc]
  rfl

theorem length_doubled (quote : Char) (cs : List Char) :
    (doubled quote cs).length = cs.length + cs.count quote := by
  induction cs with
  | nil => rfl
  | cons c cs ih =>
    by_cases hc : c = quote
    · subst hc
      rw [doubled_cons_self, List.count_cons_self]
      simp only [List.length_cons, ih]
      omega
    · rw [doubled_cons_of_ne hc, List.count_cons_of_ne hc]
      simp only [List.length_cons, ih]
      omega

theorem doubled_eq_self_iff {cs : List Char} : doubled quote cs = cs ↔ quote ∉ cs := by
  constructor
  · intro h
    have hlength := length_doubled quote cs
    rw [h] at hlength
    exact List.count_eq_zero.mp (by omega)
  · intro h
    have hsame : ∀ c ∈ cs, (if c = quote then [c, c] else [c]) = [c] := by
      intro c hc
      refine if_neg ?_
      rintro rfl
      exact h hc
    rw [doubled, List.flatMap_congr hsame, List.flatMap_singleton']

/-- What is read up to a closing quote was written with its quotes doubled. -/
theorem readToClosing?_eq_some_iff {cs name rest : List Char} :
    readToClosing? quote cs = some (name, rest) ↔
      cs = doubled quote name ++ quote :: rest ∧ rest.head? ≠ some quote := by
  constructor
  · intro h
    fun_induction readToClosing? quote cs generalizing name with
    | case1 => cases h
    | case2 =>
      cases h
      exact ⟨rfl, nofun⟩
    | case3 => cases h
    | case4 c c' cs hc ih =>
      obtain ⟨⟨name', rest'⟩, hread, hname⟩ := Option.map_eq_some_iff.mp h
      cases hname
      obtain ⟨hcs, hrest⟩ := ih hread
      rw [doubled_cons_of_ne hc, hcs]
      exact ⟨rfl, hrest⟩
    | case5 c c' cs hc hc' =>
      cases h
      rw [Classical.not_not.mp hc]
      exact ⟨rfl, fun hhead => hc' (Option.some.inj hhead)⟩
    | case6 c c' cs hc hc' ih =>
      obtain ⟨⟨name', rest'⟩, hread, hname⟩ := Option.map_eq_some_iff.mp h
      cases hname
      obtain ⟨hcs, hrest⟩ := ih hread
      rw [Classical.not_not.mp hc, Classical.not_not.mp hc', doubled_cons_self, hcs]
      exact ⟨rfl, hrest⟩
  · rintro ⟨rfl, hrest⟩
    exact readToClosing?_doubled hrest name

end Doubled

/-- A literal is read as the text that it was written from. -/
theorem readLiteral?_eq_some_iff {cs name rest : List Char} :
    readLiteral? cs = some (name, rest) ↔
      cs = (literal (String.ofList name)).toList ++ rest ∧ rest.head? ≠ some '\'' := by
  rw [literal, String.toList_ofList, String.toList_ofList]
  constructor
  · intro h
    rw [readLiteral?.eq_def] at h
    split at h
    · cases h
    · split at h
      · rename_i hc
        obtain ⟨hcs, hrest⟩ := readToClosing?_eq_some_iff.mp h
        rw [hc, hcs]
        simp [hrest]
      · cases h
  · rintro ⟨rfl, hrest⟩
    rw [List.cons_append, readLiteral?, if_pos rfl, readToClosing?_eq_some_iff]
    simp [hrest]

/-- The queries that are read are those whose literal is written as it should be. -/
theorem readSequence?_eq_some_iff {sql name : String} :
    readSequence? sql = some name ↔ sql = "SELECT currval(" ++ literal name ++ ")" := by
  simp only [readSequence?, Option.bind_eq_some_iff, List.isPrefixOf?_eq_some_iff_append_eq,
    Prod.exists, readLiteral?_eq_some_iff, Option.ite_none_right_eq_some, Option.some_inj]
  rw [← String.toList_inj, String.toList_append, String.toList_append]
  constructor
  · rintro ⟨argument, hsql, cs, rest, ⟨hargument, -⟩, hrest, hname⟩
    rw [← hsql, hargument, hrest, hname, List.append_assoc]
    rfl
  · intro hsql
    refine ⟨(literal name).toList ++ [')'], ?_, name.toList, [')'], ⟨?_, by decide⟩, rfl, ?_⟩
    · rw [hsql, List.append_assoc]
      rfl
    · rw [String.ofList_toList]
    · exact String.ofList_toList

/-- What is read from the query for a sequence is the name from which the text between the quotes
would be written. -/
theorem readSequence?_sequence_iff {text name : String} :
    readSequence? (KeyQuery.sequence text).sql = some name ↔
      text.toList = doubled '\'' name.toList := by
  have hwritten : (KeyQuery.sequence text).sql.toList =
      "SELECT currval('".toList ++ (text.toList ++ ['\'', ')']) := by
    have hsql : (KeyQuery.sequence text).sql = "SELECT currval('" ++ text ++ "')" := rfl
    rw [hsql, String.toList_append, String.toList_append, List.append_assoc]
    rfl
  have hread : ("SELECT currval(" ++ literal name ++ ")").toList =
      "SELECT currval('".toList ++ (doubled '\'' name.toList ++ ['\'', ')']) := by
    rw [literal, String.toList_append, String.toList_append, String.toList_ofList]
    simp
  rw [readSequence?_eq_some_iff, ← String.toList_inj, hwritten, hread, List.append_right_inj,
    List.append_left_inj]

/-- The name of a sequence is read back if it has no quotes. -/
theorem readSequence?_sequence_self_iff {text : String} :
    readSequence? (KeyQuery.sequence text).sql = some text ↔ '\'' ∉ text.toList := by
  rw [readSequence?_sequence_iff, eq_comm, doubled_eq_self_iff]

/-- The query for the key of a table in the dialect with sequences: behind an insertion and when it
is run on its own it is one text. What is read in it is the name whose quotes, each written twice,
make the name of the sequence, so it is the sequence of the table and the column exactly if neither
name has a quote. Otherwise the literal ends early, or stands for another sequence. -/
theorem readSequence?_keyQuery_iff (quotes : Bool) (table column : String) :
    let d : Dialect := .postgres quotes
    let sequence := table ++ "_" ++ column ++ "_seq"
    ∃ q, d.keyQuery table column = .ok q ∧
      (∀ name, readSequence? q.sql = some name ↔ sequence.toList = doubled '\'' name.toList) ∧
      (readSequence? q.sql = some sequence ↔ '\'' ∉ table.toList ∧ '\'' ∉ column.toList) ∧
      (∀ (t : Table) (key : Column) (values : List (String × Value)) (c : Command),
        t.name = table → t.IsGeneratedKey key → key.name = column →
        compileInsert d t values = .ok c →
          ∃ columns placeholders,
            c.sql = insertionText d table columns placeholders ++ ("; " ++ q.sql)) ∧
      ∀ {m : Type → Type} [Monad m] {α : Type} (query : String → m (Except String α)),
        retrieveKey d query table column = do return (← query q.sql).mapError .execution := by
  intro d sequence
  refine ⟨.sequence sequence, rfl, fun name => readSequence?_sequence_iff, ?_, ?_, fun query => rfl⟩
  · rw [readSequence?_sequence_self_iff]
    simp [sequence]
  · rintro t key values c rfl hkey rfl hc
    obtain ⟨retrieval, hretrieval, hsql⟩ := compileInsert_sql hc
    cases hretrieval with
    | none hnone => exact (hnone key hkey).elim
    | query hkey' hq =>
      obtain rfl := hkey.unique hkey'
      cases hq
      exact ⟨_, _, hsql⟩

/-- Names without quotes, in a table whose generated key is not its first column. -/
theorem readSequence?_keyQuery_iff_film :
    let d : Dialect := .postgres true
    let key : Column := ⟨"film_id", .int64, none, false, true, true⟩
    let t : Table := ⟨"film", [⟨"title", .string, none, false, true, false⟩, key]⟩
    t.IsGeneratedKey key ∧ ∃ c columns placeholders,
      compileInsert d t [("title", .text "it's")] = .ok c ∧
        c.sql = insertionText d "film" columns placeholders ++
          ("; " ++ "SELECT currval('film_film_id_seq')") ∧
        readSequence? "SELECT currval('film_film_id_seq')" = some "film_film_id_seq" := by
  intro d key t
  have hkey : t.IsGeneratedKey key := by
    refine ⟨⟨rfl, rfl⟩, [_], [], rfl, ?_⟩
    simp
  obtain ⟨q, hq, -, hread, hinsert, -⟩ := readSequence?_keyQuery_iff true "film" "film_id"
  have hsql : q.sql = "SELECT currval('film_film_id_seq')" := by
    cases hq
    decide
  obtain ⟨c, hc⟩ : ∃ c, compileInsert d t [("title", .text "it's")] = .ok c := ⟨_, rfl⟩
  obtain ⟨columns, placeholders, hinsertion⟩ := hinsert t key _ c rfl hkey rfl hc
  rw [hsql] at hinsertion hread
  exact ⟨hkey, c, columns, placeholders, hc, hinsertion, hread.mpr (by decide)⟩

/-- A quote in the name of a table ends the literal, and what follows it in the name becomes part of
the statement. -/
theorem readSequence?_keyQuery_quote :
    let d : Dialect := .postgres false
    let t : Table := ⟨"it's", [⟨"id", .int64, none, false, true, true⟩]⟩
    ∃ q, d.keyQuery "it's" "id" = .ok q ∧ q.sql = "SELECT currval('it's_id_seq')" ∧
      readLiteral? "'it's_id_seq')".toList = some ("it".toList, "s_id_seq')".toList) ∧
      readSequence? q.sql = none ∧
      (compileInsert d t [("n", .int 1)]).map Command.sql =
        .ok "INSERT INTO it's (n) VALUES (:n); SELECT currval('it's_id_seq')" := by
  intro d t
  refine ⟨.sequence "it's_id_seq", by decide, by decide, by decide, by decide +kernel, ?_⟩
  decide +kernel

end FilterLang.Sql
