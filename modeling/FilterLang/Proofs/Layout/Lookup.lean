import FilterLang.Layout.Basic
import Mathlib.Data.List.Basic

/-! Fields found by their names.

The names that a field is to answer to (`Field.lookupNames`) are stated on what its attributes say
and on the words of its name. An object of a laid out declaration gives for a name what the first
field with that name holds (`member?_object`); a later field with the name is not found by it. So
all fields are found under all of their names exactly if no name belongs to two of them. Main
statement: `reached_iff_disjoint`. -/

namespace FilterLang

namespace Layout

/-- A word with its first letter raised. -/
def capitalize : List Char → List Char
  | [] => []
  | c :: rest => c.toUpper :: rest

/-- The words of a name, each capitalized and without the underscores between them. -/
def pascalName (name : String) : String :=
  String.ofList ((name.toList.splitOn '_').flatMap capitalize)

/-- Inside a word its letters are kept; the words after it are capitalized. -/
theorem pascal_eq (capital : Bool) {cs word : List Char} {words : List (List Char)}
    (h : cs.splitOn '_' = word :: words) :
    pascal capital cs =
      (if capital then capitalize word else word) ++ words.flatMap capitalize := by
  induction cs generalizing capital word words with
  | nil =>
    cases h
    cases capital <;> rfl
  | cons c cs ih =>
    obtain ⟨word', words', hcs⟩ := List.exists_cons_of_ne_nil (List.splitOn_ne_nil '_' cs)
    rw [List.splitOn_cons_eq_if_modifyHead, hcs] at h
    simp only [beq_iff_eq] at h
    rw [pascal]
    by_cases hc : c = '_'
    · rw [if_pos hc] at h ⊢
      cases h
      rw [ih true hcs]
      cases capital <;> rfl
    · rw [if_neg hc] at h ⊢
      cases h
      rw [ih false hcs]
      cases capital <;> rfl

theorem pascal_true (cs : List Char) :
    pascal true cs = (cs.splitOn '_').flatMap capitalize := by
  obtain ⟨word, words, h⟩ := List.exists_cons_of_ne_nil (List.splitOn_ne_nil '_' cs)
  rw [pascal_eq true h, h]
  rfl

/-- That a name which is in Pascal case already is listed once makes no difference. -/
theorem mem_memberNames {field name : String} {explicit : Option String} :
    name ∈ memberNames field explicit ↔
      match explicit with
      | some chosen => name = chosen
      | none => name = bareName field ∨ name = pascalName (bareName field) := by
  cases explicit with
  | some chosen => exact List.mem_singleton
  | none =>
    rw [memberNames, pascal_true, ← pascalName]
    split
    · next h => rw [h, or_self, List.mem_singleton]
    · rw [List.mem_cons, List.mem_singleton]

namespace Field

/-- Whether no name reaches a field. -/
def isSkipped (f : Field) : Bool :=
  match Options.ofAttributes f.attributes with
  | .ok o => o.skip
  | .error _ => false

/-- The names that a field is to answer to: the one an attribute gives it, or else its own and the
one in Pascal case. -/
def lookupNames (f : Field) : List String :=
  match Options.ofAttributes f.attributes with
  | .ok ⟨_, _, _, true⟩ | .error _ => []
  | .ok ⟨some chosen, _, _, false⟩ => [chosen]
  | .ok ⟨none, _, _, false⟩ => [bareName f.name, pascalName (bareName f.name)]

/-- All a field can be to a layout: left out, or laid out under its names. -/
theorem slot?_cases {f : Field} {s : Option Slot} (h : f.slot? = .ok s) :
    (f.isSkipped = true ∧ f.lookupNames = [] ∧ s = none) ∨
      f.isSkipped = false ∧ ∃ slot, s = some slot ∧
        ∀ name, name ∈ slot.names ↔ name ∈ f.lookupNames := by
  rw [slot?] at h
  rw [isSkipped, lookupNames]
  cases ho : Options.ofAttributes f.attributes with
  | error err => rw [ho] at h; cases h
  | ok o =>
    obtain ⟨explicit, object, many, skip⟩ := o
    rw [ho] at h
    cases skip with
    | true =>
      cases h
      exact .inl ⟨rfl, rfl, rfl⟩
    | false =>
      refine .inr ⟨rfl, ?_⟩
      simp only [bind, Except.bind, Bool.false_eq_true, if_false] at h
      split at h
      · cases h
      · cases h
        refine ⟨_, rfl, fun name => ?_⟩
        rw [mem_memberNames]
        cases explicit with
        | some chosen => exact List.mem_singleton.symm
        | none => rw [List.mem_cons, List.mem_singleton]

end Field

theorem exists_of_slots_cons {f : Field} {fields : List Field} {layout : List Slot}
    (h : slots (f :: fields) = .ok layout) :
    ∃ s rest, f.slot? = .ok s ∧ slots fields = .ok rest ∧ layout = s.toList ++ rest := by
  rw [slots] at h
  cases hs : f.slot? with
  | error err => rw [hs] at h; cases h
  | ok s =>
    cases hrest : slots fields with
    | error err => rw [hs, hrest] at h; cases h
    | ok rest =>
      rw [hs, hrest] at h
      cases h
      exact ⟨s, rest, rfl, rfl, rfl⟩

/-- An object with a layout, given by all fields and what they hold. -/
def object (typeName : String) (layout : List Slot) (held : List (Field × Member)) : Entity :=
  .mk typeName (members layout ((held.filter (!·.1.isSkipped)).map Prod.snd))

theorem lookup_map_append {names : List String} {name : String} (content : Member)
    (others : List (String × Member)) :
    (names.map (·, content) ++ others).lookup name =
      if name ∈ names then some content else others.lookup name := by
  induction names with
  | nil => rfl
  | cons n names ih =>
    rw [List.map_cons, List.cons_append, List.lookup_cons, ih]
    by_cases hn : name = n
    · simp [hn]
    · simp [hn, beq_eq_false_iff_ne.mpr hn]

variable {fields : List Field} {layout : List Slot}

/-- A name gives what the first field with it holds, and nothing if no field has it. -/
theorem member?_object (h : slots fields = .ok layout) (typeName : String)
    {held : List (Field × Member)} (hheld : held.map Prod.fst = fields) (name : String) :
    (object typeName layout held).member? name =
      (held.find? (name ∈ ·.1.lookupNames)).map Prod.snd := by
  induction held generalizing fields layout with
  | nil =>
    cases hheld
    cases h
    rfl
  | cons entry held ih =>
    obtain ⟨f, content⟩ := entry
    cases hheld
    obtain ⟨s, rest, hs, hrest, rfl⟩ := exists_of_slots_cons h
    replace ih := ih hrest rfl
    rcases Field.slot?_cases hs with ⟨hskip, hnames, rfl⟩ | ⟨hskip, slot, rfl, hnames⟩
    · rw [List.find?_cons_of_neg (by simp [hnames]), ← ih]
      simp only [object, List.filter_cons, hskip]
      rfl
    · have hmembers : (object typeName ((some slot).toList ++ rest) ((f, content) :: held)).member?
          name = if name ∈ f.lookupNames then some content
            else (object typeName rest held).member? name := by
        simp only [object, List.filter_cons, hskip, ← hnames]
        exact lookup_map_append content _
      rw [hmembers, ih]
      by_cases hname : name ∈ f.lookupNames
      · rw [if_pos hname, List.find?_cons_of_pos (by simpa using hname)]
        rfl
      · rw [if_neg hname, List.find?_cons_of_neg (by simpa using hname)]

/-- If no two fields have a name in common, each is the first one with its names. -/
theorem find?_of_pairwise_disjoint {held : List (Field × Member)}
    (h : (held.map Prod.fst).Pairwise fun f g => ∀ name ∈ f.lookupNames, name ∉ g.lookupNames)
    {entry : Field × Member} (hentry : entry ∈ held) {name : String}
    (hname : name ∈ entry.1.lookupNames) :
    held.find? (name ∈ ·.1.lookupNames) = some entry := by
  induction held with
  | nil => cases hentry
  | cons first held ih =>
    rw [List.map_cons, List.pairwise_cons] at h
    cases hentry with
    | head => exact List.find?_cons_of_pos (by simpa using hname)
    | tail _ hentry =>
      have hfirst : name ∉ first.1.lookupNames := fun hfirst =>
        h.1 entry.1 (List.mem_map_of_mem hentry) name hfirst hname
      rw [List.find?_cons_of_neg (by simpa using hfirst)]
      exact ih h.2 hentry

/-- Of two fields with a common name the second is not found if the two hold different things. -/
theorem pairwise_disjoint_of_find?
    (h : ∀ held : List (Field × Member), held.map Prod.fst = fields → ∀ entry ∈ held,
      ∀ name ∈ entry.1.lookupNames,
        (held.find? (name ∈ ·.1.lookupNames)).map Prod.snd = some entry.2) :
    fields.Pairwise fun f g => ∀ name ∈ f.lookupNames, name ∉ g.lookupNames := by
  induction fields with
  | nil => exact .nil
  | cons f fields ih =>
    have hdisjoint : ∀ g ∈ fields, ∀ name ∈ f.lookupNames, name ∉ g.lookupNames := by
      intro g hg name hf hname
      let others : List (Field × Member) := fields.map fun g => (g, .many [])
      have hothers : others.map Prod.fst = fields :=
        List.map_map.trans (List.map_id fields)
      have hg : (g, .many []) ∈ others := List.mem_map.mpr ⟨g, hg, rfl⟩
      have hfound := h ((f, .absent) :: others) (by rw [List.map_cons, hothers]) (g, .many [])
        (.tail _ hg) name hname
      rw [List.find?_cons_of_pos (by simpa using hf)] at hfound
      cases hfound
    refine .cons hdisjoint (ih fun held hheld entry hentry name hname => ?_)
    have hfound := h ((f, .absent) :: held) (by rw [List.map_cons, hheld]) entry (.tail _ hentry)
      name hname
    have hf : name ∉ f.lookupNames := fun hf =>
      hdisjoint entry.1 (hheld ▸ List.mem_map_of_mem hentry) name hf hname
    rwa [List.find?_cons_of_neg (by simpa using hf)] at hfound

/-- A name gives what the first field with it holds. So every field that is not skipped is found
under all of its names, whatever the fields hold, exactly if no name belongs to two fields. -/
theorem reached_iff_disjoint (h : ofDeclaration (.named fields) = .ok layout)
    (typeName : String) :
    (∀ held : List (Field × Member), held.map Prod.fst = fields → ∀ name,
      (object typeName layout held).member? name =
        (held.find? (name ∈ ·.1.lookupNames)).map Prod.snd) ∧
    ((∀ held : List (Field × Member), held.map Prod.fst = fields → ∀ entry ∈ held,
      ∀ name ∈ entry.1.lookupNames,
        (object typeName layout held).member? name = some entry.2) ↔
      fields.Pairwise fun f g => ∀ name ∈ f.lookupNames, name ∉ g.lookupNames) := by
  have hfirst : ∀ held : List (Field × Member), held.map Prod.fst = fields → ∀ name,
      (object typeName layout held).member? name =
        (held.find? (name ∈ ·.1.lookupNames)).map Prod.snd :=
    fun _ hheld => member?_object h typeName hheld
  refine ⟨hfirst, fun hreached => ?_, fun hdisjoint => ?_⟩
  · refine pairwise_disjoint_of_find? fun held hheld entry hentry name hname => ?_
    rw [← hfirst held hheld name]
    exact hreached held hheld entry hentry name hname
  · intro held hheld entry hentry name hname
    rw [hfirst held hheld name, find?_of_pairwise_disjoint (hheld ▸ hdisjoint) hentry hname]
    rfl

theorem reached_film :
    let renamed : Attribute := ⟨some "member", .list [.word "name", .mark '=', .text "Rank"]⟩
    let skipped : Attribute := ⟨some "member", .list [.word "skip"]⟩
    let fields : List Field := [⟨"release_year", [.word "i64"], []⟩,
      ⟨"r#type", [.word "String"], []⟩, ⟨"place", [.word "u32"], [renamed]⟩,
      ⟨"Type", [.word "String"], [skipped]⟩]
    let layout : List Slot := [⟨["release_year", "ReleaseYear"], .value⟩,
      ⟨["type", "Type"], .value⟩, ⟨["Rank"], .value⟩]
    ofDeclaration (.named fields) = .ok layout ∧
      ∀ held : List (Field × Member), held.map Prod.fst = fields → ∀ entry ∈ held,
        ∀ name ∈ entry.1.lookupNames,
          (object "Film" layout held).member? name = some entry.2 := by
  intro renamed skipped fields layout
  have h : ofDeclaration (.named fields) = .ok layout := by decide +kernel
  exact ⟨h, (reached_iff_disjoint h "Film").2.mpr (by decide +kernel)⟩

/-- The name of one field is the other's in Pascal case: it is found under no name. -/
theorem not_reached_release :
    let declared : Field := ⟨"release_year", [.word "i64"], []⟩
    let hidden : Field := ⟨"ReleaseYear", [.word "i64"], []⟩
    let layout : List Slot := [⟨["release_year", "ReleaseYear"], .value⟩,
      ⟨["ReleaseYear"], .value⟩]
    let release := object "Release" layout
      [(declared, .value (.int 1999)), (hidden, .value (.int 2005))]
    ofDeclaration (.named [declared, hidden]) = .ok layout ∧ hidden.isSkipped = false ∧
      "ReleaseYear" ∈ hidden.lookupNames ∧
      ∀ name ∈ hidden.lookupNames, release.member? name = some (.value (.int 1999)) := by
  intro declared hidden layout release
  have hnames : hidden.lookupNames = ["ReleaseYear", "ReleaseYear"] := by decide +kernel
  refine ⟨by decide +kernel, by decide +kernel, by decide +kernel, fun name hname => ?_⟩
  rw [hnames] at hname
  obtain rfl : name = "ReleaseYear" := by simpa using hname
  rfl

end Layout

end FilterLang
