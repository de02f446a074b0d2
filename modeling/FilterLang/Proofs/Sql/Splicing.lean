import FilterLang.Proofs.Qualifier.Join
import FilterLang.Proofs.Sql.NameSupply
import FilterLang.Proofs.Sql.ValueIndependence

/-! The parameters of a statement stand in its text once each, in their order, and carry the values
of the request in reading order.

Every part of the compiler binds what its fragment names: `Binds` relates the binder before it to
the one after it by the names spliced and the values bound. It is composed along the text, so the
text and the parameters stay in step. Main statement: `compile_splices`. -/

namespace FilterLang

/-! ### Bound values, and a text with names in its gaps -/

/-- Whether the operand is bound in SQL: null is not, where it is compared for equality. -/
def Predicate.isBound : Predicate → Bool
  | ⟨.equals, .null⟩ | ⟨.notEqual, .null⟩ => false
  | _ => true

namespace Sql

/-- The value bound for a leaf: a pattern is bound as it is. -/
def leafValue (t : Table) (column : String) (p : Predicate) : Value :=
  if p.comparison = .like then p.operand else comparedValue t column p.operand

/-- The values bound for leaves, in order. -/
def leafValues (t : Table) (leaves : List (String × Predicate)) : List Value :=
  (leaves.filter (·.2.isBound)).map fun (column, p) => leafValue t column p

/-- The values that a request carries, in reading order, as they are bound. -/
def Request.boundValues : Request → List Value
  | condition t q => leafValues t q.leaves
  | select f => leafValues f.table (f.qualifier.elim [] Qualifier.leaves)
  | insert t values => (insertedValues t values).map Prod.snd
  | update t assignments q =>
    assignments.map Prod.snd ++ leafValues t (q.elim [] Qualifier.leaves)
  | delete t q => leafValues t (q.elim [] Qualifier.leaves)

def Piece.parameter? : Piece → Option String
  | keyword _ | identifier _ => none
  | parameter name => some name

namespace Fragment

/-- The parameter names in a fragment, in order. -/
def parameterNames (f : Fragment) : List String := f.filterMap Piece.parameter?

/-- The texts before, between and after the parameter names of a fragment. -/
def gaps (d : Dialect) : Fragment → List String
  | [] => [""]
  | .keyword text :: f => (gaps d f).modifyHead (text ++ ·)
  | .identifier name :: f => (gaps d f).modifyHead (d.identifier name ++ ·)
  | .parameter _ :: f => "" :: gaps d f

end Fragment

/-- Texts with names between them. -/
def splice : (gaps names : List String) → String
  | gap :: gaps, name :: names => gap ++ name ++ splice gaps names
  | gaps, names => String.join gaps ++ String.join names

/-- A command in whose text each parameter stands once, in order, and which carries values. -/
structure Command.Splices (c : Command) (values : List Value) : Prop where
  names : c.pieces.parameterNames = c.parameters.map (·.name)
  nodup : (c.parameters.map (·.name)).Nodup
  sql : c.sql = splice (c.pieces.gaps c.dialect) (c.parameters.map (·.name))
  gaps : (c.pieces.gaps c.dialect).length = c.parameters.length + 1
  values : c.values = values

namespace Fragment

@[simp] theorem parameterNames_nil : parameterNames [] = [] := rfl

@[simp] theorem parameterNames_keyword (text : String) (f : Fragment) :
    parameterNames (.keyword text :: f) = parameterNames f := rfl

@[simp] theorem parameterNames_identifier (name : String) (f : Fragment) :
    parameterNames (.identifier name :: f) = parameterNames f := rfl

@[simp] theorem parameterNames_parameter (name : String) (f : Fragment) :
    parameterNames (.parameter name :: f) = name :: parameterNames f := rfl

@[simp] theorem parameterNames_append (f g : Fragment) :
    parameterNames (f ++ g) = parameterNames f ++ parameterNames g := List.filterMap_append

@[simp] theorem parameterNames_separate (separator : String) (fs : List Fragment) :
    parameterNames (separate separator fs) = fs.flatMap parameterNames := by
  induction fs with
  | nil => rfl
  | cons f rest ih =>
    cases rest with
    | nil => simp [separate]
    | cons g rest => simp [separate, ih]

theorem parameterNames_separate_of_nil (separator : String) {α : Type} {piece : α → Fragment}
    (h : ∀ a, parameterNames (piece a) = []) (l : List α) :
    parameterNames (separate separator (l.map piece)) = [] := by
  simp [List.flatMap_map, h]

theorem parameterNames_separate_of_singleton (separator : String) {α : Type}
    {piece : α → Fragment} {name : α → String} (h : ∀ a, parameterNames (piece a) = [name a])
    (l : List α) : parameterNames (separate separator (l.map piece)) = l.map name := by
  rw [parameterNames_separate, List.flatMap_map, List.map_eq_flatMap]
  simp only [h]

theorem length_gaps (d : Dialect) (f : Fragment) :
    (gaps d f).length = (parameterNames f).length + 1 := by
  induction f with
  | nil => rfl
  | cons piece f ih => cases piece <;> simp [gaps, ih]

/-- A name in front goes into the first gap. -/
theorem splice_modifyHead (text : String) {gaps names : List String} (h : gaps ≠ []) :
    splice (gaps.modifyHead (text ++ ·)) names = text ++ splice gaps names := by
  obtain ⟨gap, gaps, rfl⟩ := List.exists_cons_of_ne_nil h
  cases names with
  | nil => simp [splice, String.append_assoc]
  | cons name names => simp [splice, String.append_assoc]

theorem splice_gaps (d : Dialect) (f : Fragment) :
    splice (gaps d f) (parameterNames f) = text d f := by
  induction f with
  | nil => rfl
  | cons piece f ih =>
    have hne : gaps d f ≠ [] := List.ne_nil_of_length_pos (by rw [length_gaps]; omega)
    have htext : text d (piece :: f) = piece.text d ++ text d f := by simp [text]
    rw [htext, ← ih]
    cases piece with
    | keyword _ => rw [gaps, parameterNames_keyword, splice_modifyHead _ hne, Piece.text]
    | identifier _ => rw [gaps, parameterNames_identifier, splice_modifyHead _ hne, Piece.text]
    | parameter _ => rw [gaps, parameterNames_parameter, splice, String.empty_append, Piece.text]

end Fragment

theorem exists_of_map_eq_ok {ε α β : Type} {f : α → β} {x : Except ε α} {y : β}
    (h : x.map f = .ok y) : ∃ a, x = .ok a ∧ f a = y := by
  cases x with
  | error e => cases h
  | ok a => exact ⟨a, rfl, Except.ok.inj h⟩

/-! ### Binders -/

/-- Each name was given out by the supply, and no name is on two parameters. -/
structure Binder.Distinct (b : Binder) : Prop where
  taken : ∀ p ∈ b.parameters, p.name ∈ b.names.taken
  nodup : (b.parameters.map (·.name)).Nodup

theorem Binder.Distinct.empty : Binder.Distinct {} where
  taken _ hp := nomatch hp
  nodup := List.nodup_nil

/-- The second binder is the first with parameters behind, which have given names and values. -/
structure Binds (names : List String) (values : List Value) (b b' : Binder) : Prop where
  distinct : b.Distinct → b'.Distinct
  names : b'.parameters.map (·.name) = b.parameters.map (·.name) ++ names
  values : b'.parameters.map (·.value) = b.parameters.map (·.value) ++ values

namespace Binds

variable {names names' : List String} {values values' : List Value} {b b' b'' : Binder}

theorem nil (b : Binder) : Binds [] [] b b := ⟨id, by simp, by simp⟩

theorem trans (h : Binds names values b b') (h' : Binds names' values' b' b'') :
    Binds (names ++ names') (values ++ values') b b'' where
  distinct := h'.distinct ∘ h.distinct
  names := by rw [h'.names, h.names, List.append_assoc]
  values := by rw [h'.values, h.values, List.append_assoc]

theorem length_eq (h : Binds names values b b') : names.length = values.length := by
  have hnames := congrArg List.length h.names
  have hvalues := congrArg List.length h.values
  simp only [List.length_append, List.length_map] at hnames hvalues
  omega

end Binds

variable {d : Dialect} {t : Table} {b b' : Binder}

theorem Binder.bind_ok {column name : String} {v : Value}
    (h : b.bind d t column v = .ok (name, b')) :
    ∃ type, boundNativeType d t column v = .ok type ∧ name = (b.names.next d column).1 ∧
      b' = ⟨(b.names.next d column).2, b.parameters ++ [⟨name, v, type, boundSize? t column v⟩]⟩ := by
  rw [Binder.bind] at h
  split at h
  · cases h
  · rename_i type htype
    cases h
    exact ⟨type, htype, rfl, rfl⟩

/-- A value is bound under a name that no parameter has yet. -/
theorem Binder.bind_binds {column name : String} {v : Value}
    (h : b.bind d t column v = .ok (name, b')) : Binds [name] [v] b b' := by
  obtain ⟨type, -, hname, rfl⟩ := Binder.bind_ok h
  refine ⟨fun hb => ⟨?_, ?_⟩, by simp, by simp⟩
  · intro p hp
    rw [NameSupply.taken_next, ← hname]
    rcases List.mem_append.mp hp with hp | hp
    · exact List.mem_cons_of_mem _ (hb.taken p hp)
    · rw [List.mem_singleton.mp hp]
      exact List.mem_cons_self
  · rw [List.map_append, List.map_singleton]
    refine List.Nodup.append hb.nodup (List.nodup_singleton _) ?_
    rw [List.disjoint_singleton]
    intro hmem
    obtain ⟨p, hp, hpname : p.name = name⟩ := List.mem_map.mp hmem
    have hfree : name ∉ b.names.taken := hname ▸ b.names.next_notMem d column
    exact hfree (hpname ▸ hb.taken p hp)

/-! ### Conditions -/

theorem leafValues_append (t : Table) (leaves leaves' : List (String × Predicate)) :
    leafValues t (leaves ++ leaves') = leafValues t leaves ++ leafValues t leaves' := by
  rw [leafValues, List.filter_append, List.map_append, leafValues, leafValues]

theorem leafValues_of_isBound (t : Table) (column : String) {p : Predicate}
    (h : p.isBound = true) : leafValues t [(column, p)] = [leafValue t column p] := by
  simp [leafValues, h]

/-- A predicate on a column whose operand is bound under a name. -/
def boundFragment (d : Dialect) (column : String) (c : Comparison) (name : String) : Fragment :=
  if c = .like then likeFragment d column name
  else [.identifier column, .keyword (" " ++ c.sqlSymbol ++ " "), .parameter name]

theorem parameterNames_boundFragment (d : Dialect) (column : String) (c : Comparison)
    (name : String) : (boundFragment d column c name).parameterNames = [name] := by
  rw [boundFragment]
  split <;> rfl

/-- A comparison binds its operand, or it compares with null for equality. -/
theorem comparison_ok {column : String} {p : Predicate} {f : Fragment}
    (h : comparison d t column p b = .ok (f, b')) :
    (p = ⟨.equals, .null⟩ ∧ f = [.identifier column, .keyword " IS NULL"] ∧ b' = b) ∨
      (p = ⟨.notEqual, .null⟩ ∧ f = [.identifier column, .keyword " IS NOT NULL"] ∧ b' = b) ∨
      p.isBound = true ∧ ∃ name, b.bind d t column (leafValue t column p) = .ok (name, b') ∧
        f = boundFragment d column p.comparison name := by
  obtain ⟨c, v⟩ := p
  rw [comparison] at h
  split at h
  · rename_i hc hv
    obtain rfl : c = .equals := hc
    obtain rfl : v = .null := hv
    cases h
    exact .inl ⟨rfl, rfl, rfl⟩
  · rename_i hc hv
    obtain rfl : c = .notEqual := hc
    obtain rfl : v = .null := hv
    cases h
    exact .inr (.inl ⟨rfl, rfl, rfl⟩)
  · rename_i hc
    obtain rfl : c = .like := hc
    split at h
    · rename_i hbind
      cases h
      exact .inr (.inr ⟨rfl, _, hbind, rfl⟩)
    · cases h
  · rename_i hlike hequals hnotEqual
    have hbound : (Predicate.mk c v).isBound = true := by
      rw [Predicate.isBound]
      · rintro ⟨⟩
        exact hequals rfl rfl
      · rintro ⟨⟩
        exact hnotEqual rfl rfl
    split at h
    · rename_i hbind
      cases h
      have hvalue : leafValue t column ⟨c, v⟩ = comparedValue t column v := if_neg hlike
      exact .inr (.inr ⟨hbound, _, hvalue ▸ hbind, (if_neg hlike).symm⟩)
    · cases h

theorem comparison_binds {column : String} {p : Predicate} {f : Fragment}
    (h : comparison d t column p b = .ok (f, b')) :
    Binds f.parameterNames (leafValues t [(column, p)]) b b' := by
  rcases comparison_ok h with ⟨rfl, rfl, rfl⟩ | ⟨rfl, rfl, rfl⟩ | ⟨hbound, name, hbind, rfl⟩
  · exact .nil _
  · exact .nil _
  · rw [parameterNames_boundFragment, leafValues_of_isBound t column hbound]
    exact Binder.bind_binds hbind

/-- The first of children is compiled before the others, and stands in parentheses. -/
theorem conditions_cons_ok {q : Qualifier} {qs : List Qualifier} {fs : List Fragment}
    (h : conditions d t (q :: qs) b = .ok (fs, b')) :
    ∃ f b₁ fs', condition d t q b = .ok (f, b₁) ∧ conditions d t qs b₁ = .ok (fs', b') ∧
      fs = (.keyword "(" :: (f ++ [.keyword ")"])) :: fs' := by
  rw [conditions] at h
  split at h
  · cases h
  · rename_i hfirst
    split at h
    · rename_i hrest
      cases h
      exact ⟨_, _, _, hfirst, hrest, rfl⟩
    · cases h

mutual

theorem condition_binds {q : Qualifier} {f : Fragment} {b b' : Binder}
    (h : condition d t q b = .ok (f, b')) :
    Binds f.parameterNames (leafValues t q.leaves) b b' := by
  match q with
  | .column name p =>
    rw [condition] at h
    exact comparison_binds h
  | .property name p =>
    rw [condition] at h
    exact comparison_binds h
  | .path elements target =>
    rw [condition] at h
    cases h
  | .clause c [] =>
    rw [condition] at h
    cases h
    cases c <;> exact .nil b
  | .clause c (q :: rest) =>
    rw [condition] at h
    · split at h
      · rename_i hparts
        cases h
        rw [Fragment.parameterNames_separate]
        exact conditions_binds hparts
      · cases h
    · nofun

/-- Parentheses around the parts bind nothing. -/
theorem conditions_binds {qs : List Qualifier} {fs : List Fragment} {b b' : Binder}
    (h : conditions d t qs b = .ok (fs, b')) :
    Binds (fs.flatMap Fragment.parameterNames)
      (leafValues t ((Qualifier.visitsAll qs).filterMap Qualifier.Visit.leaf?)) b b' := by
  match qs with
  | [] =>
    rw [conditions] at h
    cases h
    exact .nil b
  | q :: rest =>
    obtain ⟨f, b₁, fs', hfirst, hrest, rfl⟩ := conditions_cons_ok h
    rw [Qualifier.visitsAll, List.filterMap_append, leafValues_append]
    simpa [Qualifier.leaves] using (condition_binds hfirst).trans (conditions_binds hrest)

end

theorem whereClause_binds {q : Option Qualifier} {f : Fragment}
    (h : whereClause d t q b = .ok (f, b')) :
    Binds f.parameterNames (leafValues t (q.elim [] Qualifier.leaves)) b b' := by
  cases q with
  | none =>
    cases h
    exact .nil b
  | some q =>
    obtain ⟨_, hcondition, hf⟩ := exists_of_map_eq_ok h
    cases hf
    rw [Fragment.parameterNames_keyword]
    exact condition_binds hcondition

theorem bindAll_binds {values : List (String × Value)} {names : List String}
    (h : bindAll d t values b = .ok (names, b')) : Binds names (values.map Prod.snd) b b' := by
  induction values generalizing names b with
  | nil =>
    cases h
    exact .nil _
  | cons first rest ih =>
    obtain ⟨column, v⟩ := first
    rw [bindAll] at h
    split at h
    · cases h
    · rename_i hfirst
      split at h
      · rename_i hrest
        cases h
        exact (Binder.bind_binds hfirst).trans (ih hrest)
      · cases h

/-! ### Statements -/

theorem Command.splices_of_binds (d : Dialect) {f : Fragment} {values : List Value} {b : Binder}
    (h : Binds f.parameterNames values {} b) : Command.Splices ⟨d, f, b.parameters⟩ values := by
  have hnames : f.parameterNames = b.parameters.map (·.name) := h.names.symm
  refine ⟨hnames, (h.distinct .empty).nodup, ?_, ?_, h.values⟩
  · rw [← hnames, Fragment.splice_gaps]
    rfl
  · rw [Fragment.length_gaps, hnames, List.length_map]

theorem parameterNames_limitBefore (d : Dialect) (limit : Option Nat) :
    (limitBefore d limit).parameterNames = [] := by
  unfold limitBefore
  split <;> rfl

theorem parameterNames_limitAround (d : Dialect) (limit : Option Nat) (f : Fragment) :
    (limitAround d limit f).parameterNames = f.parameterNames := by
  unfold limitAround
  split <;> simp

theorem parameterNames_selectedColumns (t : Table) :
    (selectedColumns t).parameterNames = [] := by
  unfold selectedColumns
  split
  · rfl
  · exact Fragment.parameterNames_separate_of_nil _ (fun _ => rfl) _

theorem parameterNames_sortFragment (k : SortKey) : (sortFragment k).parameterNames = [] := by
  unfold sortFragment
  split <;> rfl

theorem parameterNames_orderClause (keys : List SortKey) :
    (orderClause keys).parameterNames = [] := by
  unfold orderClause
  split
  · rfl
  · exact Fragment.parameterNames_separate_of_nil _ parameterNames_sortFragment keys

theorem parameterNames_keyFragment (key : Option KeyQuery) :
    (keyFragment key).parameterNames = [] := by
  cases key <;> rfl

theorem compileQualifier_splices {q : Qualifier} {c : Command}
    (h : compileQualifier d t q = .ok c) : c.Splices (leafValues t q.leaves) := by
  obtain ⟨_, hcondition, hc⟩ := exists_of_map_eq_ok h
  cases hc
  exact Command.splices_of_binds d (condition_binds hcondition)

theorem compileSelect_splices {f : Fetch} {c : Command} (h : compileSelect d f = .ok c) :
    c.Splices (leafValues f.table (f.qualifier.elim [] Qualifier.leaves)) := by
  obtain ⟨_, hwhere, hc⟩ := exists_of_map_eq_ok h
  cases hc
  refine Command.splices_of_binds d ?_
  simpa [parameterNames_limitBefore, parameterNames_limitAround, parameterNames_selectedColumns,
    parameterNames_orderClause] using whereClause_binds hwhere

/-- An insertion binds the values of the columns that the database does not make. -/
theorem compileInsert_ok {values : List (String × Value)} {c : Command}
    (h : compileInsert d t values = .ok c) :
    ∃ key names b, insertedKey? d t = .ok key ∧ insertedValues t values ≠ [] ∧
      bindAll d t (insertedValues t values) {} = .ok (names, b) ∧
      c = ⟨d, [.keyword "INSERT INTO ", .identifier t.name, .keyword " ("] ++
        Fragment.separate ", " ((insertedValues t values).map fun v => [.identifier v.1]) ++
        [.keyword ") VALUES ("] ++ Fragment.separate ", " (names.map fun n => [.parameter n]) ++
        [.keyword ")"] ++ keyFragment key, b.parameters⟩ := by
  rw [compileInsert] at h
  split at h
  · cases h
  · rename_i key hkey
    dsimp only at h
    split at h
    · cases h
    · rename_i names b hvalues
      split at h
      · cases h
      · rename_i hkept
        cases h
        exact ⟨key, names, b, hkey, fun hnil => hkept (List.isEmpty_iff.mpr hnil), hvalues, rfl⟩

/-- An update binds the assigned values before those of its condition. -/
theorem compileUpdate_ok {assignments : List (String × Value)} {q : Option Qualifier}
    {c : Command} (h : compileUpdate d t assignments q = .ok c) :
    ∃ names b condition b', assignments ≠ [] ∧ bindAll d t assignments {} = .ok (names, b) ∧
      whereClause d t q b = .ok (condition, b') ∧
      c = ⟨d, [.keyword "UPDATE ", .identifier t.name, .keyword " SET "] ++
        Fragment.separate ", " ((assignments.zip names).map fun a =>
          [.identifier a.1.1, .keyword " = ", .parameter a.2]) ++ condition, b'.parameters⟩ := by
  rw [compileUpdate] at h
  split at h
  · cases h
  · rename_i hassignments
    split at h
    · cases h
    · rename_i names b hassigned
      obtain ⟨⟨condition, b'⟩, hwhere, hc⟩ := exists_of_map_eq_ok h
      exact ⟨names, b, condition, b', fun hnil => hassignments (List.isEmpty_iff.mpr hnil),
        hassigned, hwhere, hc.symm⟩

theorem compileInsert_splices {values : List (String × Value)} {c : Command}
    (h : compileInsert d t values = .ok c) :
    c.Splices ((insertedValues t values).map Prod.snd) := by
  obtain ⟨key, names, b, -, -, hvalues, rfl⟩ := compileInsert_ok h
  refine Command.splices_of_binds d ?_
  have hcolumns : (Fragment.separate ", " ((insertedValues t values).map fun v =>
      [.identifier v.1])).parameterNames = [] :=
    Fragment.parameterNames_separate_of_nil _ (fun _ => rfl) _
  have hnames : (Fragment.separate ", " (names.map fun n =>
      [.parameter n])).parameterNames = names :=
    (Fragment.parameterNames_separate_of_singleton _ (fun _ => rfl) _).trans (List.map_id _)
  simpa [hcolumns, hnames, parameterNames_keyFragment] using bindAll_binds hvalues

theorem compileUpdate_splices {assignments : List (String × Value)} {q : Option Qualifier}
    {c : Command} (h : compileUpdate d t assignments q = .ok c) :
    c.Splices (assignments.map Prod.snd ++ leafValues t (q.elim [] Qualifier.leaves)) := by
  obtain ⟨names, b, condition, b', -, hassigned, hwhere, rfl⟩ := compileUpdate_ok h
  have hbinds := bindAll_binds hassigned
  have hlength : names.length ≤ assignments.length :=
    Nat.le_of_eq (hbinds.length_eq.trans (List.length_map _))
  refine Command.splices_of_binds d ?_
  rw [Fragment.parameterNames_append, Fragment.parameterNames_append,
    Fragment.parameterNames_separate_of_singleton _ (fun _ => rfl), List.map_snd_zip hlength]
  exact hbinds.trans (whereClause_binds hwhere)

theorem compileDelete_splices {q : Option Qualifier} {c : Command}
    (h : compileDelete d t q = .ok c) :
    c.Splices (leafValues t (q.elim [] Qualifier.leaves)) := by
  obtain ⟨_, hwhere, hc⟩ := exists_of_map_eq_ok h
  cases hc
  refine Command.splices_of_binds d ?_
  simpa using whereClause_binds hwhere

/-- In a statement that compiles, each parameter stands once and in order, and the parameters carry
the values of the request in reading order. -/
theorem compile_splices {d : Dialect} {r : Request} {c : Command} (h : r.compile d = .ok c) :
    c.Splices r.boundValues := by
  cases r with
  | condition t q => exact compileQualifier_splices h
  | select f => exact compileSelect_splices h
  | insert t values => exact compileInsert_splices h
  | update t assignments q => exact compileUpdate_splices h
  | delete t q => exact compileDelete_splices h

theorem compile_splices_update :
    let t : Table := ⟨"person", [⟨"age", .int64, none, true, false, false⟩]⟩
    let age (c : Comparison) (v : Value) : Qualifier := .column "age" ⟨c, v⟩
    let r : Request := .update t [("age", .text "7")]
      (some (.clause .and [age .notEqual .null, age .like (.text "8"), age .equals (.text "8")]))
    ∃ c, r.compile .oracle = .ok c ∧ c.Splices [.text "7", .text "8", .int 8] := by
  intro t age r
  have hvalues : r.boundValues = [.text "7", .text "8", .int 8] := rfl
  have hcompile : ∃ c, r.compile .oracle = .ok c := ⟨_, rfl⟩
  obtain ⟨c, hc⟩ := hcompile
  exact ⟨c, hc, hvalues ▸ compile_splices hc⟩

end Sql
end FilterLang
