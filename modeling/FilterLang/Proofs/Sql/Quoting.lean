import FilterLang.Proofs.Sql.Unambiguity

/-! A quoted identifier ends where its name does.

A reader skips the opening quote and takes pairs of closing quotes for one each, up to the first
closing quote that is alone (`readIdentifier?`). It gets back any name if the text behind the quotes
does not start with another closing quote. No statement has such a text behind a name:
`Fragment.Quotes` runs along a statement, asks this at every name and lists the names, which are
those of the request in reading order. Main statement: `quoteIdentifier_delimits`. -/

namespace FilterLang

/-! ### Names in a request and in a statement -/

/-- The names that the leaves compare, from left to right. -/
def Qualifier.names (q : Qualifier) : List String := q.leaves.map Prod.fst

theorem Qualifier.names_clause (c : Connective) (qs : List Qualifier) :
    (clause c qs).names = qs.flatMap names := by
  rw [names, leaves_clause, List.map_flatMap]
  rfl

namespace Sql

/-- Reads up to the first closing quote that is not doubled: what is before it, with one quote for
each pair, and what is behind it. -/
def readToClosing? (closing : Char) : List Char → Option (List Char × List Char)
  | [] => none
  | [c] => if c = closing then some ([], []) else none
  | c :: c' :: cs =>
    if c ≠ closing then
      (readToClosing? closing (c' :: cs)).map fun (name, rest) => (c :: name, rest)
    else if c' ≠ closing then some ([], c' :: cs)
    else (readToClosing? closing cs).map fun (name, rest) => (closing :: name, rest)

/-- The name that a text quotes at its start, and the text behind the quotes. -/
def Dialect.readIdentifier? (d : Dialect) (text : String) : Option (String × String) :=
  match text.toList with
  | [] => none
  | c :: cs =>
    if c = d.quotes.1 then
      (readToClosing? d.quotes.2 cs).map fun (name, rest) =>
        (String.ofList name, String.ofList rest)
    else none

/-- A text that ends a quoted name in front of it: it does not start with a closing quote. -/
def Dialect.EndsName (d : Dialect) (text : String) : Prop := text.toList.head? ≠ some d.quotes.2

instance (d : Dialect) (text : String) : Decidable (d.EndsName text) :=
  inferInstanceAs (Decidable (_ ≠ _))

/-- The characters that stand behind names in statements. -/
def delimiters : List Char := [' ', ',', ')', ';']

def startsWithDelimiter (text : String) : Bool := text.toList.head?.any delimiters.contains

def Piece.identifier? : Piece → Option String
  | keyword _ | parameter _ => none
  | identifier name => some name

/-- The table and column names in a fragment, in order. -/
def Fragment.identifiers (f : Fragment) : List String := f.filterMap Piece.identifier?

/-- The names that a request is about, in reading order. -/
def Request.names : Request → List String
  | condition _ q => q.names
  | select f =>
    f.table.columns.map (·.name) ++ f.table.name :: f.qualifier.elim [] Qualifier.names ++
      f.sortKeys.map (·.column)
  | insert t values => t.name :: (insertedValues t values).map Prod.fst
  | update t assignments q =>
    t.name :: assignments.map Prod.fst ++ q.elim [] Qualifier.names
  | delete t q => t.name :: q.elim [] Qualifier.names

/-! ### Reading a quoted identifier -/

section Reading

variable {closing : Char}

theorem readToClosing?_cons_of_ne {c : Char} (h : c ≠ closing) (cs : List Char) :
    readToClosing? closing (c :: cs) =
      (readToClosing? closing cs).map fun (name, rest) => (c :: name, rest) := by
  cases cs with
  | nil => exact if_neg h
  | cons c' cs => rw [readToClosing?, if_pos h]

theorem readToClosing?_pair (cs : List Char) :
    readToClosing? closing (closing :: closing :: cs) =
      (readToClosing? closing cs).map fun (name, rest) => (closing :: name, rest) := by
  rw [readToClosing?, if_neg (not_not_intro rfl), if_neg (not_not_intro rfl)]

theorem readToClosing?_closing {rest : List Char} (h : rest.head? ≠ some closing) :
    readToClosing? closing (closing :: rest) = some ([], rest) := by
  cases rest with
  | nil => rw [readToClosing?, if_pos rfl]
  | cons c cs =>
    have hc : c ≠ closing := fun heq => h (congrArg some heq)
    rw [readToClosing?, if_neg (not_not_intro rfl), if_pos hc]

/-- Doubling is undone, whatever quotes the name holds. -/
theorem readToClosing?_doubled {rest : List Char} (h : rest.head? ≠ some closing)
    (name : List Char) :
    readToClosing? closing
        (name.flatMap (fun c => if c = closing then [c, c] else [c]) ++ closing :: rest) =
      some (name, rest) := by
  induction name with
  | nil => exact readToClosing?_closing h
  | cons c name ih =>
    rw [List.flatMap_cons, List.append_assoc]
    split
    · rename_i heq
      subst heq
      exact (readToClosing?_pair _).trans (congrArg _ ih)
    · rename_i hne
      exact (readToClosing?_cons_of_ne hne _).trans (congrArg _ ih)

end Reading

variable {d : Dialect}

theorem Dialect.endsName_empty (d : Dialect) : d.EndsName "" := nofun

theorem Dialect.readIdentifier?_quoteIdentifier {following : String} (h : d.EndsName following)
    (name : String) :
    d.readIdentifier? (d.quoteIdentifier name ++ following) = some (name, following) := by
  have htext : (d.quoteIdentifier name ++ following).toList = d.quotes.1 ::
      (name.toList.flatMap (fun c => if c = d.quotes.2 then [c, c] else [c]) ++
        d.quotes.2 :: following.toList) := by
    rw [String.toList_append, quoteIdentifier, String.toList_ofList, List.cons_append,
      List.append_assoc]
    rfl
  rw [readIdentifier?, htext]
  dsimp only
  rw [if_pos rfl, readToClosing?_doubled h, Option.map_some, String.ofList_toList,
    String.ofList_toList]

theorem Dialect.quoteIdentifier_injective (d : Dialect) : Function.Injective d.quoteIdentifier := by
  intro name name' heq
  have hread : ∀ name, d.readIdentifier? (d.quoteIdentifier name) = some (name, "") := by
    intro name
    simpa using readIdentifier?_quoteIdentifier d.endsName_empty name
  have hpair : (name, "") = (name', "") :=
    Option.some.inj ((hread name).symm.trans (heq ▸ hread name'))
  exact congrArg Prod.fst hpair

/-! ### Fragments of quoted names -/

namespace Fragment

/-- A fragment whose text ends a quoted name in front of it. -/
def StartsApart (d : Dialect) (f : Fragment) : Prop := d.EndsName (f.text d)

theorem startsApart_nil : StartsApart d [] := d.endsName_empty

/-- No dialect quotes with a delimiter. -/
theorem startsApart_keyword {text : String} (f : Fragment) (h : startsWithDelimiter text = true) :
    StartsApart d (.keyword text :: f) := by
  obtain ⟨c, hhead, hc⟩ : ∃ c, text.toList.head? = some c ∧ c ∈ delimiters := by
    simpa [startsWithDelimiter, Option.any_eq_true] using h
  have hquote : c ≠ d.quotes.2 := by
    have hnone : d.quotes.2 ∉ delimiters := by
      cases d <;> simp [Dialect.quotes, delimiters]
    exact fun heq => hnone (heq ▸ hc)
  rw [StartsApart, Dialect.EndsName, toList_text_cons, Piece.text, List.head?_append, hhead]
  exact fun heq => hquote (Option.some.inj heq)

theorem StartsApart.append {f g : Fragment} (hf : StartsApart d f) (hg : StartsApart d g) :
    StartsApart d (f ++ g) := by
  rw [StartsApart, Dialect.EndsName, toList_text_append, List.head?_append]
  cases hhead : (f.text d).toList.head? with
  | none => exact hg
  | some c =>
    intro heq
    exact hf (hhead.trans heq)

/-- A fragment whose identifiers are given names, in order, each in front of a text that ends it. -/
inductive Quotes (d : Dialect) : Fragment → List String → Prop
  | nil : Quotes d [] []
  | keyword (text : String) {f : Fragment} {names : List String} (h : Quotes d f names) :
    Quotes d (.keyword text :: f) names
  | parameter (name : String) {f : Fragment} {names : List String} (h : Quotes d f names) :
    Quotes d (.parameter name :: f) names
  | identifier (name : String) {f : Fragment} {names : List String} (hf : StartsApart d f)
    (h : Quotes d f names) : Quotes d (.identifier name :: f) (name :: names)

namespace Quotes

variable {f g : Fragment} {names names' : List String}

/-- A name at the end of a fragment is ended by what is put behind the fragment. -/
theorem append (hf : Quotes d f names) (hg : Quotes d g names') (hstart : StartsApart d g) :
    Quotes d (f ++ g) (names ++ names') := by
  induction hf with
  | nil => exact hg
  | keyword text _ ih => exact .keyword text ih
  | parameter name _ ih => exact .parameter name ih
  | identifier name hapart _ ih => exact .identifier name (hapart.append hstart) ih

/-- Behind a fragment without names anything may stand. -/
theorem append_of_nil (hf : Quotes d f []) (hg : Quotes d g names) : Quotes d (f ++ g) names := by
  generalize hnone : ([] : List String) = none at hf
  induction hf with
  | nil => exact hg
  | keyword text _ ih => exact .keyword text (ih hnone)
  | parameter name _ ih => exact .parameter name (ih hnone)
  | identifier => cases hnone

theorem separate {separator : String} (hseparator : startsWithDelimiter separator = true)
    {α : Type} {namesOf : α → List String} {fs : List Fragment} {l : List α}
    (h : List.Forall₂ (fun f a => Quotes d f (namesOf a)) fs l) :
    Quotes d (Fragment.separate separator fs) (l.flatMap namesOf) := by
  induction h with
  | nil => exact .nil
  | cons hfirst hrest ih =>
    rw [List.flatMap_cons]
    cases hrest with
    | nil => simpa [Fragment.separate] using hfirst
    | cons _ _ =>
      rw [Fragment.separate]
      · exact hfirst.append (.keyword _ ih) (startsApart_keyword _ hseparator)
      · nofun

theorem separate_map {separator : String} (hseparator : startsWithDelimiter separator = true)
    {α : Type} {piece : α → Fragment} {namesOf : α → List String}
    (h : ∀ a, Quotes d (piece a) (namesOf a)) (l : List α) :
    Quotes d (Fragment.separate separator (l.map piece)) (l.flatMap namesOf) :=
  separate hseparator (List.forall₂_map_left_iff.mpr (List.forall₂_same.mpr fun a _ => h a))

theorem separate_singletons {separator : String}
    (hseparator : startsWithDelimiter separator = true) {α : Type} {piece : α → Fragment}
    {name : α → String} (h : ∀ a, Quotes d (piece a) [name a]) (l : List α) :
    Quotes d (Fragment.separate separator (l.map piece)) (l.map name) := by
  rw [List.map_eq_flatMap (f := name)]
  exact separate_map hseparator h l

theorem identifiers_eq (h : Quotes d f names) : f.identifiers = names := by
  induction h with
  | nil => rfl
  | keyword text _ ih => exact ih
  | parameter name _ ih => exact ih
  | identifier name _ _ ih => exact congrArg (name :: ·) ih

/-- Every splice point of a name is followed by a text that ends the name. -/
theorem startsApart (h : Quotes d f names) {before after : Fragment} {name : String}
    (hsplit : f = before ++ .identifier name :: after) : StartsApart d after := by
  induction h generalizing before with
  | nil => exact absurd hsplit (by simp)
  | keyword text _ ih | parameter text _ ih =>
    rcases List.cons_eq_append_iff.mp hsplit with ⟨-, hcons⟩ | ⟨others, -, hothers⟩
    · cases hcons
    · exact ih hothers
  | identifier _ hf _ ih =>
    rcases List.cons_eq_append_iff.mp hsplit with ⟨-, hcons⟩ | ⟨others, -, hothers⟩
    · cases hcons
      exact hf
    · exact ih hothers

end Quotes

theorem text_eq_of_split (hd : d.quotesIdentifiers = true) (before after : Fragment)
    (name : String) :
    text d (before ++ .identifier name :: after) =
      before.text d ++ d.quoteIdentifier name ++ after.text d := by
  rw [← String.toList_inj, toList_text_append, toList_text_cons, Piece.text, Dialect.identifier,
    if_pos hd]
  simp only [String.toList_append, List.append_assoc]

end Fragment

open Fragment (Quotes StartsApart)

variable {t : Table} {b b' : Binder}

/-! ### Conditions -/

theorem comparison_quotes {column : String} {p : Predicate} {f : Fragment}
    (h : comparison d t column p b = .ok (f, b')) : Quotes d f [column] := by
  have hkeyword : ∀ {text : String} {f : Fragment}, startsWithDelimiter text = true →
      Quotes d f [] → Quotes d (.identifier column :: .keyword text :: f) [column] :=
    fun htext hf => .identifier column (Fragment.startsApart_keyword _ htext) (.keyword _ hf)
  rcases comparison_ok h with ⟨-, rfl, -⟩ | ⟨-, rfl, -⟩ | ⟨-, name, -, rfl⟩
  · exact hkeyword rfl .nil
  · exact hkeyword rfl .nil
  · rw [boundFragment]
    split
    · have hbetween : startsWithDelimiter d.likeForm.between = true := by
        cases d <;> simp [Dialect.likeForm, startsWithDelimiter, delimiters]
      exact .keyword _ (hkeyword hbetween (.parameter name (.keyword _ .nil)))
    · have hsymbol : startsWithDelimiter (" " ++ p.comparison.sqlSymbol ++ " ") = true := by
        cases p.comparison <;> rfl
      exact hkeyword hsymbol (.parameter name .nil)

mutual

theorem condition_quotes {q : Qualifier} {f : Fragment} {b b' : Binder}
    (h : condition d t q b = .ok (f, b')) : Quotes d f q.names := by
  match q with
  | .column name p =>
    rw [condition] at h
    exact comparison_quotes h
  | .property name p =>
    rw [condition] at h
    exact comparison_quotes h
  | .path elements target =>
    rw [condition] at h
    cases h
  | .clause c [] =>
    rw [condition] at h
    cases h
    cases c <;> exact .keyword _ .nil
  | .clause c (q :: rest) =>
    rw [condition] at h
    · split at h
      · rename_i hparts
        cases h
        rw [Qualifier.names_clause]
        exact .separate (by cases c <;> rfl) (conditions_quotes hparts)
      · cases h
    · nofun

theorem conditions_quotes {qs : List Qualifier} {fs : List Fragment} {b b' : Binder}
    (h : conditions d t qs b = .ok (fs, b')) :
    List.Forall₂ (fun f q => Quotes d f q.names) fs qs := by
  match qs with
  | [] =>
    rw [conditions] at h
    cases h
    exact .nil
  | q :: rest =>
    obtain ⟨f, b₁, fs', hfirst, hrest, rfl⟩ := conditions_cons_ok h
    have hgroup : Quotes d (f ++ [.keyword ")"]) q.names := by
      simpa using (condition_quotes hfirst).append (.keyword ")" .nil)
        (Fragment.startsApart_keyword [] rfl)
    exact .cons (.keyword "(" hgroup) (conditions_quotes hrest)

end

theorem whereClause_quotes {q : Option Qualifier} {f : Fragment}
    (h : whereClause d t q b = .ok (f, b')) :
    Quotes d f (q.elim [] Qualifier.names) ∧ StartsApart d f := by
  cases q with
  | none =>
    cases h
    exact ⟨.nil, Fragment.startsApart_nil⟩
  | some q =>
    obtain ⟨_, hcondition, hf⟩ := exists_of_map_eq_ok h
    cases hf
    exact ⟨.keyword _ (condition_quotes hcondition), Fragment.startsApart_keyword _ rfl⟩

/-! ### Statements -/

theorem limitBefore_quotes (d : Dialect) (limit : Option Nat) :
    Quotes d (limitBefore d limit) [] := by
  unfold limitBefore
  split
  · exact .keyword _ .nil
  · exact .keyword _ .nil
  · exact .nil

theorem limitAround_quotes {f : Fragment} {names : List String} (limit : Option Nat)
    (h : Quotes d f names) : Quotes d (limitAround d limit f) names := by
  unfold limitAround
  split
  · rename_i n _
    have hlimit : startsWithDelimiter (" LIMIT " ++ limitText n) = true := by
      simp [startsWithDelimiter, delimiters]
    simpa using h.append (.keyword _ .nil) (Fragment.startsApart_keyword [] hlimit)
  · rename_i n _
    have hlimit : startsWithDelimiter (") WHERE ROWNUM <= " ++ limitText n) = true := by
      simp [startsWithDelimiter, delimiters]
    refine .keyword _ ?_
    simpa using h.append (.keyword _ .nil) (Fragment.startsApart_keyword [] hlimit)
  · exact h

theorem selectedColumns_quotes (d : Dialect) (t : Table) :
    Quotes d (selectedColumns t) (t.columns.map (·.name)) := by
  unfold selectedColumns
  split
  · rename_i hempty
    rw [List.isEmpty_iff.mp hempty]
    exact .keyword _ .nil
  · exact .separate_singletons rfl (fun _ => .identifier _ Fragment.startsApart_nil .nil) _

theorem sortFragment_quotes (d : Dialect) (k : SortKey) : Quotes d (sortFragment k) [k.column] := by
  have hword : startsWithDelimiter (" " ++ k.direction.sqlKeyword) = true := by
    simp [startsWithDelimiter, delimiters]
  unfold sortFragment
  dsimp only
  split
  · exact .keyword _ (.identifier _ (Fragment.startsApart_keyword _ rfl)
      (.keyword _ (.keyword _ .nil)))
  · exact .identifier _ (Fragment.startsApart_keyword _ hword) (.keyword _ .nil)

theorem orderClause_quotes (d : Dialect) (keys : List SortKey) :
    Quotes d (orderClause keys) (keys.map (·.column)) ∧ StartsApart d (orderClause keys) := by
  unfold orderClause
  split
  · rename_i hempty
    rw [List.isEmpty_iff.mp hempty]
    exact ⟨.nil, Fragment.startsApart_nil⟩
  · exact ⟨.keyword _ (.separate_singletons rfl (sortFragment_quotes d) keys),
      Fragment.startsApart_keyword _ rfl⟩

theorem keyFragment_quotes (d : Dialect) (key : Option KeyQuery) :
    Quotes d (keyFragment key) [] := by
  cases key with
  | none => exact .nil
  | some q => exact .keyword _ (.keyword _ .nil)

/-- A command of a dialect that quotes given names, as a fragment does. -/
def Command.Quotes (d : Dialect) (c : Command) (names : List String) : Prop :=
  c.dialect = d ∧ Fragment.Quotes d c.pieces names

theorem compileQualifier_quotes {q : Qualifier} {c : Command}
    (h : compileQualifier d t q = .ok c) : c.Quotes d q.names := by
  obtain ⟨_, hcondition, hc⟩ := exists_of_map_eq_ok h
  cases hc
  exact ⟨rfl, condition_quotes hcondition⟩

theorem compileSelect_quotes {f : Fetch} {c : Command} (h : compileSelect d f = .ok c) :
    c.Quotes d (Request.select f).names := by
  obtain ⟨⟨condition, b⟩, hwhere, hc⟩ := exists_of_map_eq_ok h
  cases hc
  obtain ⟨hcondition, hapart⟩ := whereClause_quotes hwhere
  obtain ⟨horder, hstart⟩ := orderClause_quotes d f.sortKeys
  refine ⟨rfl, limitAround_quotes _ (.keyword _ ?_)⟩
  have hrest : Quotes d (condition ++ orderClause f.sortKeys)
      (f.qualifier.elim [] Qualifier.names ++ f.sortKeys.map (·.column)) :=
    hcondition.append horder hstart
  have hfrom : Quotes d (.keyword " FROM " :: .identifier f.table.name ::
      (condition ++ orderClause f.sortKeys)) (f.table.name ::
      (f.qualifier.elim [] Qualifier.names ++ f.sortKeys.map (·.column))) :=
    .keyword _ (.identifier _ (hapart.append hstart) hrest)
  have hselected := (selectedColumns_quotes d f.table).append hfrom
    (Fragment.startsApart_keyword _ rfl)
  simpa [Request.names] using (limitBefore_quotes d f.limit?).append_of_nil hselected

theorem compileInsert_quotes {values : List (String × Value)} {c : Command}
    (h : compileInsert d t values = .ok c) : c.Quotes d (Request.insert t values).names := by
  obtain ⟨key, names, b, -, -, -, rfl⟩ := compileInsert_ok h
  refine ⟨rfl, ?_⟩
  have hcolumns : Quotes d (Fragment.separate ", " ((insertedValues t values).map fun v =>
      [.identifier v.1])) ((insertedValues t values).map Prod.fst) :=
    .separate_singletons rfl (fun _ => .identifier _ Fragment.startsApart_nil .nil) _
  have hnames : Quotes d (Fragment.separate ", " (names.map fun n => [.parameter n])) [] := by
    have hnone : (names.flatMap fun _ => ([] : List String)) = [] :=
      List.flatMap_eq_nil_iff.mpr fun _ _ => rfl
    exact hnone ▸ .separate_map rfl (fun n => .parameter n .nil) names
  have hvalues := hnames.append_of_nil (.keyword ")" (keyFragment_quotes d key))
  have hlist := hcolumns.append (.keyword ") VALUES (" hvalues)
    (Fragment.startsApart_keyword _ rfl)
  have hinsert := Quotes.keyword "INSERT INTO " (.identifier t.name
    (Fragment.startsApart_keyword _ rfl) (.keyword " (" hlist))
  simpa [Request.names] using hinsert

theorem compileUpdate_quotes {assignments : List (String × Value)} {q : Option Qualifier}
    {c : Command} (h : compileUpdate d t assignments q = .ok c) :
    c.Quotes d (Request.update t assignments q).names := by
  obtain ⟨names, b, condition, b', -, hassigned, hwhere, rfl⟩ := compileUpdate_ok h
  refine ⟨rfl, ?_⟩
  obtain ⟨hcondition, hapart⟩ := whereClause_quotes hwhere
  have hlength : assignments.length ≤ names.length := by
    have hbound := (bindAll_binds hassigned).length_eq
    rw [List.length_map] at hbound
    omega
  have hcolumns : (assignments.zip names).map (·.1.1) = assignments.map Prod.fst := by
    conv_rhs => rw [← List.map_fst_zip hlength, List.map_map]
    rfl
  have hset : Quotes d (Fragment.separate ", " ((assignments.zip names).map fun a =>
      [.identifier a.1.1, .keyword " = ", .parameter a.2])) (assignments.map Prod.fst) := by
    rw [← hcolumns]
    exact .separate_singletons rfl (fun _ => .identifier _
      (Fragment.startsApart_keyword _ rfl) (.keyword _ (.parameter _ .nil))) _
  have hupdate := Quotes.keyword "UPDATE " (.identifier t.name
    (Fragment.startsApart_keyword _ rfl) (.keyword " SET " (hset.append hcondition hapart)))
  simpa [Request.names] using hupdate

theorem compileDelete_quotes {q : Option Qualifier} {c : Command}
    (h : compileDelete d t q = .ok c) : c.Quotes d (Request.delete t q).names := by
  obtain ⟨_, hwhere, hc⟩ := exists_of_map_eq_ok h
  cases hc
  obtain ⟨hcondition, hapart⟩ := whereClause_quotes hwhere
  exact ⟨rfl, .keyword _ (.identifier _ hapart hcondition)⟩

theorem compile_quotes {r : Request} {c : Command} (h : r.compile d = .ok c) :
    c.Quotes d r.names := by
  cases r with
  | condition t q => exact compileQualifier_quotes h
  | select f => exact compileSelect_quotes h
  | insert t values => exact compileInsert_quotes h
  | update t assignments q => exact compileUpdate_quotes h
  | delete t q => exact compileDelete_quotes h

/-- Whatever a name holds, it is read back from its quotes, so that no two names are quoted alike.
In the statements of a dialect that quotes, each name of the request stands in quotes, in front of a
text that ends it. -/
theorem quoteIdentifier_delimits (d : Dialect) :
    (∀ name following, d.EndsName following →
      d.readIdentifier? (d.quoteIdentifier name ++ following) = some (name, following)) ∧
    Function.Injective d.quoteIdentifier ∧
    (d.quotesIdentifiers = true → ∀ (r : Request) (c : Command), r.compile d = .ok c →
      c.pieces.identifiers = r.names ∧
        ∀ (before : Fragment) (name : String) (after : Fragment),
          c.pieces = before ++ .identifier name :: after →
          c.sql = before.text d ++ d.quoteIdentifier name ++ after.text d ∧
            d.EndsName (after.text d)) := by
  refine ⟨fun name following h => Dialect.readIdentifier?_quoteIdentifier h name,
    d.quoteIdentifier_injective, ?_⟩
  intro hd r c hc
  obtain ⟨rfl, hquotes⟩ := compile_quotes hc
  refine ⟨hquotes.identifiers_eq, ?_⟩
  intro before name after hsplit
  refine ⟨?_, hquotes.startsApart hsplit⟩
  rw [Command.sql, hsplit, Fragment.text_eq_of_split hd]

/-- Closing quotes in all places, and a name without characters. -/
theorem quoteIdentifier_delimits_brackets :
    let d : Dialect := .generic true
    let r : Request := .update ⟨"a]]", []⟩ [("]", .int 1)] (some (.column "" ⟨.equals, .null⟩))
    d.readIdentifier? ("[a]]]]]" ++ " SET") = some ("a]]", " SET") ∧
      ∃ c after, r.compile d = .ok c ∧ c.pieces.identifiers = ["a]]", "]", ""] ∧
        c.sql = "UPDATE " ++ "[a]]]]]" ++ Fragment.text d after ∧
        d.EndsName (Fragment.text d after) := by
  intro d r
  obtain ⟨hread, -, hstatement⟩ := quoteIdentifier_delimits d
  have hquoted : d.quoteIdentifier "a]]" = "[a]]]]]" := by decide
  obtain ⟨hnames, hsplices⟩ := hstatement rfl r _ rfl
  obtain ⟨hsql, hends⟩ := hsplices [.keyword "UPDATE "] "a]]" _ rfl
  rw [hquoted] at hsql
  exact ⟨hquoted ▸ hread "a]]" " SET" (by decide), _, _, rfl, hnames, hsql, hends⟩

end Sql
end FilterLang
