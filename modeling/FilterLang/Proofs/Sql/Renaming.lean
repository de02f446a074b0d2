import FilterLang.Proofs.Sql.Insertion

/-! One condition in all statements.

What was bound before changes the names that a condition gives to its parameters, and nothing else:
not whether it fails (`error?_condition`), not its pieces up to those names, not the contents of its
parameters (`condition_renames`). A statement puts the condition between pieces of its own, which
are there without it as well: a selection or a deletion binds nothing else (`buildsAround_carries`),
and an update binds its assignments first (`buildsAround_carriesRenamed`). Main statement:
`compile_carries_condition`. -/

namespace FilterLang.Sql

/-- What a parameter holds, whatever its name. -/
def Parameter.content (p : Parameter) : Value × Option NativeType × Option Nat :=
  (p.value, p.nativeType, p.size)

/-- A piece without the name, if it is one of a parameter. -/
def Piece.unnamed : Piece → Piece
  | .parameter _ => .parameter ""
  | piece => piece

/-- Fragments that differ in the names of their parameters alone. -/
def Fragment.SameUpToNames (f f' : Fragment) : Prop := f.map Piece.unnamed = f'.map Piece.unnamed

/-- A statement with a condition in it: the text of the plain statement is kept around it, and there
are no other parameters. -/
structure Command.Carries (plain condition c : Command) : Prop where
  parameters : c.parameters = condition.parameters
  sql : ∃ before after, plain.sql = before ++ after ∧
    c.sql = before ++ " WHERE " ++ condition.sql ++ after

/-- The text of a condition with names in the places of those that its parameters have, for
parameters that hold the same. -/
structure Command.Renames (condition : Command) (own : List Parameter) (text : String) : Prop where
  contents : own.map Parameter.content = condition.parameters.map Parameter.content
  gaps : (condition.pieces.gaps condition.dialect).length = own.length + 1
  sql : condition.sql =
    splice (condition.pieces.gaps condition.dialect) (condition.parameters.map (·.name))
  text : text = splice (condition.pieces.gaps condition.dialect) (own.map (·.name))

/-- A statement with a condition behind it, under names of its own for the parameters. -/
def Command.CarriesRenamed (plain condition c : Command) : Prop :=
  ∃ own text, condition.Renames own text ∧ c.parameters = plain.parameters ++ own ∧
    c.sql = plain.sql ++ " WHERE " ++ text

/-- Statements built with and without a condition: with one they fail exactly as it fails on its
own, and otherwise they are related to the plain statement and to the condition. -/
structure BuildsAround (d : Dialect) (t : Table) (q : Qualifier)
    (relation : (plain condition c : Command) → Prop)
    (build : Option Qualifier → Except CompileError Command) (plain : Command) : Prop where
  plain_eq : build none = .ok plain
  error_iff : ∀ e, build (some q) = .error e ↔ compileQualifier d t q = .error e
  related : ∀ condition, compileQualifier d t q = .ok condition →
    ∃ c, build (some q) = .ok c ∧ relation plain condition c

namespace Fragment

theorem SameUpToNames.append {f f' g g' : Fragment} (hf : SameUpToNames f f')
    (hg : SameUpToNames g g') : SameUpToNames (f ++ g) (f' ++ g') := by
  rw [SameUpToNames, List.map_append, List.map_append, hf, hg]

theorem SameUpToNames.separate (separator : String) {fs fs' : List Fragment}
    (h : List.Forall₂ SameUpToNames fs fs') :
    SameUpToNames (separate separator fs) (separate separator fs') := by
  induction h with
  | nil => rfl
  | @cons f f' fs fs' hf hfs ih =>
    cases hfs with
    | nil => exact hf
    | cons hg hfs => exact hf.append (congrArg (Piece.keyword separator :: ·) ih)

theorem gaps_unnamed (d : Dialect) (f : Fragment) : gaps d (f.map Piece.unnamed) = gaps d f := by
  induction f with
  | nil => rfl
  | cons piece f ih => cases piece <;> simp [gaps, Piece.unnamed, ih]

theorem SameUpToNames.gaps_eq (d : Dialect) {f f' : Fragment} (h : SameUpToNames f f') :
    gaps d f = gaps d f' := by
  rw [← gaps_unnamed, h, gaps_unnamed]

end Fragment

variable {d : Dialect} {t : Table} {b b₁ b' b₁' : Binder}

/-- Two results of binding, from two binders: the first binders got the same contents behind what
they had. -/
def SameContents (b b₁ b' b₁' : Binder) : Prop :=
  ∃ added added' : List Parameter, b₁.parameters = b.parameters ++ added ∧
    b₁'.parameters = b'.parameters ++ added' ∧
    added.map Parameter.content = added'.map Parameter.content

theorem SameContents.refl (b b' : Binder) : SameContents b b b' b' :=
  ⟨[], [], (List.append_nil _).symm, (List.append_nil _).symm, rfl⟩

theorem SameContents.trans {b₂ b₂' : Binder} (h : SameContents b b₁ b' b₁')
    (h₁ : SameContents b₁ b₂ b₁' b₂') : SameContents b b₂ b' b₂' := by
  obtain ⟨added, added', hadded, hadded', hcontents⟩ := h
  obtain ⟨more, more', hmore, hmore', hcontents₁⟩ := h₁
  refine ⟨added ++ more, added' ++ more', ?_, ?_, ?_⟩
  · rw [hmore, hadded, List.append_assoc]
  · rw [hmore', hadded', List.append_assoc]
  · rw [List.map_append, List.map_append, hcontents, hcontents₁]

theorem Binder.bind_sameContents {column name name' : String} {v : Value}
    (h : b.bind d t column v = .ok (name, b₁)) (h' : b'.bind d t column v = .ok (name', b₁')) :
    SameContents b b₁ b' b₁' := by
  obtain ⟨type, htype, -, rfl⟩ := Binder.bind_ok h
  obtain ⟨type', htype', -, rfl⟩ := Binder.bind_ok h'
  obtain rfl : type = type' := Except.ok.inj (htype.symm.trans htype')
  exact ⟨_, _, rfl, rfl, rfl⟩

theorem boundFragment_sameUpToNames (d : Dialect) (column : String) (c : Comparison)
    (name name' : String) :
    (boundFragment d column c name).SameUpToNames (boundFragment d column c name') := by
  rw [boundFragment, boundFragment]
  split <;> rfl

theorem comparison_renames {column : String} {p : Predicate} {f f' : Fragment}
    (h : comparison d t column p b = .ok (f, b₁)) (h' : comparison d t column p b' = .ok (f', b₁')) :
    f.SameUpToNames f' ∧ SameContents b b₁ b' b₁' := by
  rcases comparison_ok h with ⟨rfl, rfl, rfl⟩ | ⟨rfl, rfl, rfl⟩ | ⟨hbound, name, hbind, rfl⟩
  · cases h'
    exact ⟨rfl, .refl _ _⟩
  · cases h'
    exact ⟨rfl, .refl _ _⟩
  · rcases comparison_ok h' with ⟨rfl, -, -⟩ | ⟨rfl, -, -⟩ | ⟨-, name', hbind', rfl⟩
    · cases hbound
    · cases hbound
    · exact ⟨boundFragment_sameUpToNames d column _ name name',
        Binder.bind_sameContents hbind hbind'⟩

mutual

/-- What was bound before a condition shows in the names of its parameters alone. -/
theorem condition_renames {q : Qualifier} {f f' : Fragment} {b b₁ b' b₁' : Binder}
    (h : condition d t q b = .ok (f, b₁)) (h' : condition d t q b' = .ok (f', b₁')) :
    f.SameUpToNames f' ∧ SameContents b b₁ b' b₁' := by
  match q with
  | .column name p | .property name p =>
    rw [condition] at h h'
    exact comparison_renames h h'
  | .path elements target => cases h
  | .clause c [] =>
    cases h
    cases h'
    exact ⟨rfl, .refl _ _⟩
  | .clause c (q :: rest) =>
    rw [condition] at h h'
    · split at h
      · rename_i hparts
        split at h'
        · rename_i hparts'
          cases h
          cases h'
          obtain ⟨hfs, hcontents⟩ := conditions_renames hparts hparts'
          exact ⟨.separate _ hfs, hcontents⟩
        · cases h'
      · cases h
    · nofun
    · nofun

theorem conditions_renames {qs : List Qualifier} {fs fs' : List Fragment} {b b₁ b' b₁' : Binder}
    (h : conditions d t qs b = .ok (fs, b₁)) (h' : conditions d t qs b' = .ok (fs', b₁')) :
    List.Forall₂ Fragment.SameUpToNames fs fs' ∧ SameContents b b₁ b' b₁' := by
  match qs with
  | [] =>
    cases h
    cases h'
    exact ⟨.nil, .refl _ _⟩
  | q :: rest =>
    obtain ⟨f, b₂, fs, hfirst, hrest, rfl⟩ := conditions_cons_ok h
    obtain ⟨f', b₂', fs', hfirst', hrest', rfl⟩ := conditions_cons_ok h'
    obtain ⟨hf, hcontents⟩ := condition_renames hfirst hfirst'
    obtain ⟨hfs, hcontents'⟩ := conditions_renames hrest hrest'
    have hgroup : Fragment.SameUpToNames (.keyword "(" :: (f ++ [.keyword ")"]))
        (.keyword "(" :: (f' ++ [.keyword ")"])) :=
      congrArg (Piece.keyword "(" :: ·) (hf.append (g := [.keyword ")"]) rfl)
    exact ⟨.cons hgroup hfs, hcontents.trans hcontents'⟩

end

/-- A condition is there from any binder, or from none. -/
theorem exists_condition_of_compileQualifier {q : Qualifier} {c : Command}
    (h : compileQualifier d t q = .ok c) (b : Binder) :
    ∃ f b', condition d t q b = .ok (f, b') := by
  have hnone : error? (condition d t q b) = none := by
    have herror := congrArg error? h
    rwa [compileQualifier, error?_map, error?_condition, ← error?_condition q b] at herror
  obtain ⟨⟨f, b'⟩, hcondition⟩ := error?_eq_none_iff.mp hnone
  exact ⟨f, b', hcondition⟩

theorem whereClause_eq_error_iff {q : Qualifier} {e : CompileError} :
    whereClause d t (some q) b = .error e ↔ compileQualifier d t q = .error e := by
  rw [← error?_eq_some_iff, ← error?_eq_some_iff, whereClause, compileQualifier, error?_map,
    error?_map, error?_condition, error?_condition]

/-- A statement that binds nothing but its condition. -/
theorem buildsAround_carries (q : Qualifier) (before after : Fragment)
    {build : Option Qualifier → Except CompileError Command}
    (hbuild : ∀ q, build q = (whereClause d t q {}).map fun (f, b) =>
      ⟨d, before ++ f ++ after, b.parameters⟩) :
    ∃ plain, BuildsAround d t q Command.Carries build plain := by
  refine ⟨⟨d, before ++ [] ++ after, []⟩, hbuild none, fun e => ?_, fun c hc => ?_⟩
  · rw [hbuild, map_eq_error_iff, whereClause_eq_error_iff]
  · obtain ⟨⟨f, b⟩, hcondition, rfl⟩ := exists_of_map_eq_ok hc
    refine ⟨⟨d, before ++ (.keyword " WHERE " :: f) ++ after, b.parameters⟩, ?_, rfl,
      before.text d, after.text d, ?_, ?_⟩
    · rw [hbuild, whereClause, hcondition]
      rfl
    · rw [Command.sql, List.append_nil, Fragment.text_append]
    · rw [Command.sql, Command.sql, Fragment.text_append, Fragment.text_append,
        Fragment.text_cons, ← String.append_assoc]
      rfl

theorem condition_renamesTo {q : Qualifier} {f f' : Fragment} (h : condition d t q {} = .ok (f, b))
    (h' : condition d t q b' = .ok (f', b₁')) :
    ∃ own, b₁'.parameters = b'.parameters ++ own ∧
      Command.Renames ⟨d, f, b.parameters⟩ own (f'.text d) := by
  obtain ⟨hpieces, added, own, hadded, hown, hcontents⟩ := condition_renames h h'
  obtain rfl : b.parameters = added := hadded
  have hnames : b.parameters.map (·.name) = f.parameterNames := (condition_binds h).names
  have hownNames : own.map (·.name) = f'.parameterNames := by
    have hall := (condition_binds h').names
    rw [hown, List.map_append] at hall
    exact List.append_cancel_left hall
  refine ⟨own, hown, hcontents.symm, ?_, ?_, ?_⟩
  · rw [Fragment.SameUpToNames.gaps_eq d hpieces, Fragment.length_gaps, ← hownNames,
      List.length_map]
  · rw [Command.sql, hnames, Fragment.splice_gaps]
  · rw [Fragment.SameUpToNames.gaps_eq d hpieces, hownNames, Fragment.splice_gaps]

/-- A statement that has bound something before its condition. -/
theorem buildsAround_carriesRenamed (q : Qualifier) (before : Fragment)
    {build : Option Qualifier → Except CompileError Command}
    (hbuild : ∀ q, build q = (whereClause d t q b).map fun (f, b) =>
      ⟨d, before ++ f, b.parameters⟩) :
    BuildsAround d t q Command.CarriesRenamed build ⟨d, before, b.parameters⟩ := by
  refine ⟨?_, fun e => ?_, fun c hc => ?_⟩
  · rw [hbuild, whereClause, Except.map]
    dsimp only
    rw [List.append_nil]
  · rw [hbuild, map_eq_error_iff, whereClause_eq_error_iff]
  · obtain ⟨f', b₁', hcondition'⟩ := exists_condition_of_compileQualifier hc b
    obtain ⟨⟨f, b₁⟩, hcondition, rfl⟩ := exists_of_map_eq_ok hc
    obtain ⟨own, hown, hrenames⟩ := condition_renamesTo hcondition hcondition'
    refine ⟨⟨d, before ++ (.keyword " WHERE " :: f'), b₁'.parameters⟩, ?_, own, _, hrenames, hown,
      ?_⟩
    · rw [hbuild, whereClause, hcondition']
      rfl
    · rw [Command.sql, Command.sql, Fragment.text_append, Fragment.text_cons,
        ← String.append_assoc]
      rfl

theorem exists_limitAround (d : Dialect) (limit : Option Nat) :
    ∃ before after : Fragment, ∀ f, limitAround d limit f = before ++ f ++ after := by
  have hplain : ∀ f : Fragment, f = [] ++ f ++ [] := fun f => (List.append_nil f).symm
  cases limit with
  | none => exact ⟨[], [], hplain⟩
  | some n =>
    cases hlimit : d.rowLimit with
    | limit =>
      exact ⟨[], [.keyword (" LIMIT " ++ limitText n)], fun f => by simp [limitAround, hlimit]⟩
    | rowNum =>
      exact ⟨[.keyword "SELECT * FROM ("], [.keyword (") WHERE ROWNUM <= " ++ limitText n)],
        fun f => by simp [limitAround, hlimit]⟩
    | top | first => exact ⟨[], [], fun f => by simp [limitAround, hlimit]⟩

theorem compileSelect_buildsAround (d : Dialect) (t : Table) (q : Qualifier) (keys : List SortKey)
    (limit : Int) :
    ∃ plain, BuildsAround d t q Command.Carries (fun q => compileSelect d ⟨t, q, keys, limit⟩)
      plain := by
  let limit? : Option Nat := Fetch.limit? ⟨t, none, keys, limit⟩
  obtain ⟨before, after, haround⟩ := exists_limitAround d limit?
  refine buildsAround_carries q
    (before ++ .keyword "SELECT " :: (limitBefore d limit? ++ selectedColumns t ++
      [.keyword " FROM ", .identifier t.name]))
    (orderClause keys ++ after) fun q => ?_
  have hlimit : Fetch.limit? ⟨t, q, keys, limit⟩ = limit? := rfl
  rw [compileSelect]
  refine congrArg (Except.map · _) (funext fun (f, b) => ?_)
  refine congrArg (Command.mk d · b.parameters) ((haround _).trans ?_)
  simp only [hlimit, List.append_assoc, List.cons_append]

theorem compileDelete_buildsAround (d : Dialect) (t : Table) (q : Qualifier) :
    ∃ plain, BuildsAround d t q Command.Carries (compileDelete d t) plain := by
  refine buildsAround_carries q [.keyword "DELETE FROM ", .identifier t.name] [] fun q => ?_
  simp only [compileDelete, List.append_nil]

theorem compileUpdate_buildsAround (q : Qualifier) {assignments : List (String × Value)}
    (hne : assignments ≠ []) (hmaps : ∀ a ∈ assignments, ∀ c, t.Describes a.1 c → d.Maps c.type) :
    ∃ plain, plain.values = assignments.map Prod.snd ∧
      BuildsAround d t q Command.CarriesRenamed (compileUpdate d t assignments) plain := by
  obtain ⟨⟨names, b⟩, hbind⟩ := (exists_bindAll_eq_ok_iff (b := {})).mpr hmaps
  have hempty : assignments.isEmpty = false := List.isEmpty_eq_false_iff.mpr hne
  let before : Fragment := [.keyword "UPDATE ", .identifier t.name, .keyword " SET "] ++
    Fragment.separate ", " ((assignments.zip names).map fun a =>
      [.identifier a.1.1, .keyword " = ", .parameter a.2])
  refine ⟨⟨d, before, b.parameters⟩, (bindAll_binds hbind).values,
    buildsAround_carriesRenamed q before fun q => ?_⟩
  rw [compileUpdate, hempty, hbind]
  rfl

/-- All statements carry the condition that a filter is on its own, and fail exactly as it fails. In
a deletion, or a selection with any keys and limit, its text follows the keyword as it is and its
parameters are the only ones. In an update whose values are all bound its parameters follow theirs:
they hold the same, and their names stand in the text in the places of the old ones. -/
theorem compile_carries_condition (d : Dialect) (t : Table) (q : Qualifier) :
    (∃ plain, BuildsAround d t q Command.Carries (compileDelete d t) plain) ∧
    (∀ keys limit, ∃ plain,
      BuildsAround d t q Command.Carries (fun q => compileSelect d ⟨t, q, keys, limit⟩) plain) ∧
    ∀ assignments : List (String × Value), assignments ≠ [] →
      (∀ a ∈ assignments, ∀ c, t.Describes a.1 c → d.Maps c.type) →
      ∃ plain, plain.values = assignments.map Prod.snd ∧
        BuildsAround d t q Command.CarriesRenamed (compileUpdate d t assignments) plain :=
  ⟨compileDelete_buildsAround d t q, compileSelect_buildsAround d t q,
    fun _ hne hmaps => compileUpdate_buildsAround q hne hmaps⟩

/-- Behind an assignment the first name is taken, its next one too, and the last changes with it. -/
theorem compile_carries_condition_update :
    let t : Table := ⟨"person", [⟨"age", .int64, none, true, false, false⟩]⟩
    let q : Qualifier := .clause .or
      [.column "age" ⟨.equals, .text "7"⟩, .column "age_2" ⟨.lessThan, .int 3⟩]
    ∃ plain condition c : Command, plain.values = [.int 8] ∧
      compileQualifier .oracle t q = .ok condition ∧
        compileUpdate .oracle t [("age", .int 8)] (some q) = .ok c ∧
          plain.CarriesRenamed condition c ∧
            condition.parameters.map (·.name) = [":age", ":age_2"] ∧
              c.parameters.map (·.name) = [":age", ":age_2", ":age_2_2"] := by
  intro t q
  have hmaps : ∀ a ∈ [("age", Value.int 8)], ∀ c, t.Describes a.1 c → Dialect.oracle.Maps c.type :=
    exists_bindAll_eq_ok_iff (b := {}) |>.mp ⟨_, rfl⟩
  obtain ⟨-, -, hupdate⟩ := compile_carries_condition .oracle t q
  obtain ⟨plain, hvalues, hbuilds⟩ := hupdate _ (List.cons_ne_nil _ _) hmaps
  have hnames : (compileQualifier .oracle t q).map (·.parameters.map (·.name)) =
      .ok [":age", ":age_2"] := by decide +kernel
  have hnames' : (compileUpdate .oracle t [("age", .int 8)] (some q)).map
      (·.parameters.map (·.name)) = .ok [":age", ":age_2", ":age_2_2"] := by decide +kernel
  obtain ⟨condition, hcondition, hcnames⟩ := exists_of_map_eq_ok hnames
  obtain ⟨c, hc, hcarries⟩ := hbuilds.related condition hcondition
  rw [hc] at hnames'
  exact ⟨plain, condition, c, hvalues, hcondition, hc, hcarries, hcnames,
    Except.ok.inj hnames'⟩

end FilterLang.Sql
