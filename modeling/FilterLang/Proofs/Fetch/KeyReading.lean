import Mathlib.Data.List.Basic
import FilterLang.Fetch.Sorting

/-! What a sort key reads of an object.

The column of a key is taken for names with dots between them. Relationships to one are followed
from name to name (`Entity.LeadsTo`), and the member at which this ends gives the key
(`SortKey.EndsAt`): its value, null where nothing is related, or an error. Text is compared in upper
case if the direction says so. Main statement: `SortKey.gives_iff`. -/

namespace FilterLang

/-! ### Dotted names -/

namespace Text

theorem not_mem_of_mem_splitOn {sep : Char} {cs part : List Char} (h : part ∈ cs.splitOn sep) :
    sep ∉ part := by
  induction cs generalizing part with
  | nil =>
    obtain rfl := List.mem_singleton.mp h
    exact List.not_mem_nil
  | cons c cs ih =>
    obtain ⟨first, parts, hcs⟩ := List.exists_cons_of_ne_nil (List.splitOn_ne_nil sep cs)
    rw [List.splitOn_cons_eq_if_modifyHead, hcs] at h
    rw [hcs] at ih
    split at h
    · rcases List.mem_cons.mp h with rfl | h
      · exact List.not_mem_nil
      · exact ih h
    · rename_i hc
      rcases List.mem_cons.mp h with rfl | h
      · rw [List.mem_cons, not_or]
        exact ⟨fun hsep => hc (beq_iff_eq.mpr hsep.symm), ih List.mem_cons_self⟩
      · exact ih (List.mem_cons_of_mem _ h)

/-- Names without a dot are read back from their dotted name. -/
theorem split_dotted {names : List String} (hne : names ≠ [])
    (hdots : ∀ n ∈ names, '.' ∉ n.toList) :
    ((Qualifier.dotted names).toList.splitOn '.').map String.ofList = names := by
  have hsplit : (Qualifier.dotted names).toList.splitOn '.' = names.map String.toList := by
    rw [Qualifier.dotted, String.toList_intercalate]
    refine List.splitOn_intercalate '.' ?_ (by simpa using hne)
    simpa using hdots
  rw [hsplit, List.map_map]
  simp [Function.comp_def]

/-- Every text is the dotted name of the parts between its dots. -/
theorem dotted_split (s : String) :
    Qualifier.dotted ((s.toList.splitOn '.').map String.ofList) = s := by
  have hparts : String.toList ∘ String.ofList = id := funext fun _ => String.toList_ofList
  rw [← String.toList_inj, Qualifier.dotted, String.toList_intercalate, List.map_map, hparts,
    List.map_id]
  exact List.intercalate_splitOn '.'

end Text

/-! ### The member that gives a key -/

/-- Relationships to one lead along names from one object to another. -/
inductive Entity.LeadsTo : Entity → List String → Entity → Prop
  | here (e : Entity) : LeadsTo e [] e
  | through {e next target : Entity} {name : String} {path : List String}
    (h : e.member? name = some (.one next)) (hrest : LeadsTo next path target) :
    LeadsTo e (name :: path) target

namespace SortKey

/-- What a member gives at which the names of a key end, or from which the names behind it lead no
further. -/
inductive EndsAt (e : Entity) (name : String) (behind : List String) :
    Except EvaluationError Value → Prop
  | value {v : Value} (h : e.member? name = some (.value v)) : EndsAt e name behind (.ok v)
  | absent (h : e.member? name = some .absent) : EndsAt e name behind (.ok .null)
  | one {target : Entity} (h : e.member? name = some (.one target)) (hlast : behind = []) :
    EndsAt e name behind (.error (.notAValue name e.typeName))
  | many {items : List Entity} (h : e.member? name = some (.many items)) :
    EndsAt e name behind (.error (.notAValue name e.typeName))
  | unknown (h : e.member? name = none) :
    EndsAt e name behind (.error (.unknownMember name e.typeName))

/-- A value as a key compares it: text in upper case, if the key does not look at case. -/
def folded (k : SortKey) (v : Value) : Value :=
  match k.direction, v with
  | .ascendingCaseInsensitive, .text s | .descendingCaseInsensitive, .text s =>
    .text (Text.upper s)
  | _, v => v

/-- What a key gives for an object: relationships to one lead along the names of its column to the
object that holds the member. -/
inductive Gives (k : SortKey) (e : Entity) : Except EvaluationError Value → Prop
  | intro {path behind : List String} {name : String} {target : Entity}
    {outcome : Except EvaluationError Value}
    (hcolumn : k.column = Qualifier.dotted (path ++ name :: behind))
    (hdots : ∀ n ∈ path ++ name :: behind, '.' ∉ n.toList)
    (hpath : e.LeadsTo path target) (hend : EndsAt target name behind outcome) :
    Gives k e (outcome.map k.folded)

variable {path names behind : List String} {name : String} {e target : Entity}
  {outcome : Except EvaluationError Value}

theorem value_dotted (hne : names ≠ []) (hdots : ∀ n ∈ names, '.' ∉ n.toList) (d : Direction)
    (e : Entity) :
    let k : SortKey := ⟨Qualifier.dotted names, d⟩
    k.value e = (read e names).map k.folded := by
  intro k
  rw [value, Text.split_dotted hne hdots]
  cases read e names with
  | error err => rfl
  | ok v => cases d <;> cases v <;> rfl

/-- A name that is not the last one is passed for a relationship to one alone; the value of any
other member is the key. -/
theorem read_cons (n : String) (hne : names ≠ []) :
    read e (n :: names) =
      match e.member? n with
      | some (.one target) => read target names
      | _ => e.value n := by
  obtain ⟨m, names, rfl⟩ := List.exists_cons_of_ne_nil hne
  rw [read]
  · cases hm : e.member? n with
    | none => rfl
    | some member =>
      cases member with
      | value v => cases v <;> simp [Entity.value, hm]
      | absent => simp [Entity.value, hm]
      | one target => rfl
      | many items => rfl
  · nofun

theorem read_append (h : e.LeadsTo path target) (hne : names ≠ []) :
    read e (path ++ names) = read target names := by
  induction h with
  | here e => rfl
  | @through e next target n path h hrest ih =>
    rw [List.cons_append, read_cons n (List.append_ne_nil_of_right_ne_nil path hne), h]
    exact ih

theorem EndsAt.value_eq (h : EndsAt e name behind outcome) : e.value name = outcome := by
  cases h with
  | value h | absent h | one h | many h | unknown h => rw [Entity.value, h]

theorem EndsAt.read_eq (h : EndsAt e name behind outcome) : read e (name :: behind) = outcome := by
  rw [← h.value_eq]
  by_cases hlast : behind = []
  · subst hlast
    rfl
  · rw [read_cons name hlast]
    cases h with
    | one h hnil => exact (hlast hnil).elim
    | value h | absent h | many h | unknown h => rw [h]

/-- Some member ends the way along names. -/
theorem exists_endsAt (e : Entity) (hne : names ≠ []) :
    ∃ path name behind target outcome, names = path ++ name :: behind ∧
      e.LeadsTo path target ∧ EndsAt target name behind outcome := by
  induction names generalizing e with
  | nil => exact (hne rfl).elim
  | cons n names ih =>
    have hstop : ∀ {outcome}, EndsAt e n names outcome →
        ∃ path name behind target outcome, n :: names = path ++ name :: behind ∧
          e.LeadsTo path target ∧ EndsAt target name behind outcome :=
      fun hend => ⟨[], n, names, e, _, rfl, .here e, hend⟩
    cases hm : e.member? n with
    | none => exact hstop (.unknown hm)
    | some member =>
      cases member with
      | value v => exact hstop (.value hm)
      | absent => exact hstop (.absent hm)
      | many items => exact hstop (.many hm)
      | one next =>
        by_cases hlast : names = []
        · exact hstop (.one hm hlast)
        · obtain ⟨path, name, behind, target, outcome, rfl, hpath, hend⟩ := ih next hlast
          exact ⟨n :: path, name, behind, target, outcome, rfl, .through hm hpath, hend⟩

theorem Gives.value_eq {k : SortKey} (h : k.Gives e outcome) : k.value e = outcome := by
  obtain ⟨column, d⟩ := k
  obtain ⟨hcolumn, hdots, hpath, hend⟩ := h
  obtain rfl : column = _ := hcolumn
  have hne : ∀ {path name} {behind : List String}, path ++ name :: behind ≠ [] := by simp
  rw [value_dotted hne hdots d e, read_append hpath (List.cons_ne_nil _ _), hend.read_eq]

theorem exists_gives (k : SortKey) (e : Entity) : ∃ outcome, k.Gives e outcome := by
  have hne : (k.column.toList.splitOn '.').map String.ofList ≠ [] := by simp
  have hdots : ∀ n ∈ (k.column.toList.splitOn '.').map String.ofList, '.' ∉ n.toList := by
    intro n hn
    obtain ⟨part, hpart, rfl⟩ := List.mem_map.mp hn
    rw [String.toList_ofList]
    exact Text.not_mem_of_mem_splitOn hpart
  obtain ⟨path, name, behind, target, outcome, hnames, hpath, hend⟩ := exists_endsAt e hne
  have hcolumn : k.column = Qualifier.dotted (path ++ name :: behind) := by
    rw [← hnames, Text.dotted_split]
  rw [hnames] at hdots
  exact ⟨_, .intro hcolumn hdots hpath hend⟩

/-- The value by which an object is sorted is what its key gives for it. -/
theorem gives_iff {k : SortKey} : k.Gives e outcome ↔ k.value e = outcome := by
  refine ⟨Gives.value_eq, ?_⟩
  rintro rfl
  obtain ⟨outcome, h⟩ := k.exists_gives e
  rw [h.value_eq]
  exact h

end SortKey

end FilterLang
