import Mathlib.Data.List.Forall2
import FilterLang.Predicate.Basic

/-! What a wildcard pattern describes, and that matching decides it.

A pattern describes the texts that are its segments, up to case, with any run of characters at each
wildcard (`Describes`). Matching never goes back on a segment that it has placed: the first place of
a segment leaves the longest rest (`suffix_afterFirst?`), and characters before a rest can be given
to the wildcard in front of it. Main statement: `holds_like_iff`. -/

namespace FilterLang

namespace Wildcard

/-- Texts of one length whose characters differ in case at most. -/
abbrev SameUpToCase (s t : List Char) : Prop :=
  List.Forall₂ (fun c d => Text.fold c = Text.fold d) s t

/-- A text that is some parts in their order with any run of characters between one and the next. -/
inductive Alternates : List (List Char) → List Char → Prop
  | last (part : List Char) : Alternates [part] part
  | cons (part run : List Char) {parts : List (List Char)} {text : List Char}
    (h : Alternates parts text) : Alternates (part :: parts) (part ++ run ++ text)

/-- The texts that a pattern describes. -/
def Describes (pattern text : String) : Prop :=
  ∃ parts, List.Forall₂ SameUpToCase (pattern.toList.splitOn '%') parts ∧
    Alternates parts text.toList

section Alternation

variable {part text : List Char} {parts : List (List Char)}

theorem alternates_singleton_iff : Alternates [part] text ↔ text = part := by
  constructor
  · intro h
    cases h with
    | last => rfl
    | cons part run h => cases h
  · rintro rfl
    exact .last text

theorem alternates_cons_iff (hne : parts ≠ []) :
    Alternates (part :: parts) text ↔
      ∃ run rest, text = part ++ run ++ rest ∧ Alternates parts rest := by
  constructor
  · intro h
    cases h with
    | last => exact absurd rfl hne
    | cons part run h => exact ⟨run, _, rfl, h⟩
  · rintro ⟨run, rest, rfl, h⟩
    exact .cons part run h

/-- The images of a text are put together as the text is. -/
theorem alternates_map_iff {f : Char → Char} {images : List (List Char)} :
    Alternates images (text.map f) ↔
      ∃ parts, parts.map (List.map f) = images ∧ Alternates parts text := by
  constructor
  · generalize himage : text.map f = image
    intro h
    induction h generalizing text with
    | last => exact ⟨[text], by rw [List.map_singleton, himage], .last text⟩
    | cons part run h ih =>
      obtain ⟨front, text, rfl, hfront, htext⟩ := List.map_eq_append_iff.mp himage
      obtain ⟨part', run', rfl, rfl, rfl⟩ := List.map_eq_append_iff.mp hfront
      obtain ⟨parts, rfl, hparts⟩ := ih htext
      exact ⟨part' :: parts, rfl, .cons part' run' hparts⟩
  · rintro ⟨parts, rfl, h⟩
    induction h with
    | last part => exact .last _
    | cons part run h ih =>
      rw [List.map_append, List.map_append]
      exact .cons _ _ ih

end Alternation

section Matching

variable {segment rest text : List Char} {segments : List (List Char)}

theorem afterPrefix?_eq_some_iff :
    afterPrefix? segment text = some rest ↔ text = segment ++ rest := by
  induction segment generalizing text with
  | nil => simp [afterPrefix?]
  | cons c segment ih =>
    cases text with
    | nil => simp [afterPrefix?]
    | cons d text =>
      rw [afterPrefix?, List.cons_append, List.cons.injEq]
      split
      · rename_i h
        rw [ih, h, eq_self, true_and]
      · rename_i h
        exact ⟨nofun, fun h' => absurd h'.1.symm h⟩

theorem exists_of_afterFirst? (h : afterFirst? segment text = some rest) :
    ∃ run, text = run ++ segment ++ rest := by
  induction text with
  | nil =>
    rw [afterFirst?, afterPrefix?_eq_some_iff] at h
    exact ⟨[], h⟩
  | cons d text ih =>
    rw [afterFirst?] at h
    split at h
    · rename_i hprefix
      cases h
      exact ⟨[], afterPrefix?_eq_some_iff.mp hprefix⟩
    · obtain ⟨run, hrun⟩ := ih h
      exact ⟨d :: run, congrArg (d :: ·) hrun⟩

/-- Wherever a segment stands in a text, its first place leaves at least as much. -/
theorem suffix_afterFirst? {run : List Char} (h : text = run ++ segment ++ rest) :
    ∃ longest, afterFirst? segment text = some longest ∧ rest <:+ longest := by
  induction text generalizing run with
  | nil =>
    obtain ⟨rfl, rfl, rfl⟩ : run = [] ∧ segment = [] ∧ rest = [] := by simpa using h.symm
    exact ⟨[], rfl, List.suffix_rfl⟩
  | cons d text ih =>
    rw [afterFirst?]
    split
    · rename_i longest hprefix
      rw [afterPrefix?_eq_some_iff] at hprefix
      refine ⟨longest, rfl, ?_⟩
      -- Both places leave a suffix of the text, and that at the start leaves the longer one.
      have hlength := congrArg List.length (h.symm.trans hprefix)
      simp only [List.length_append] at hlength
      refine List.suffix_of_suffix_length_le ⟨run ++ segment, h.symm⟩ ⟨segment, hprefix.symm⟩ ?_
      omega
    · rename_i hnone
      cases run with
      | nil => exact absurd (hnone.symm.trans (afterPrefix?_eq_some_iff.mpr h)) nofun
      | cons c run => exact ih (List.cons.inj h).2

/-- Segments behind a wildcard fit the texts that end as the segments describe. -/
theorem matchesAfterWildcard_iff (hne : segments ≠ []) :
    matchesAfterWildcard segments text = true ↔
      ∃ run rest, text = run ++ rest ∧ Alternates segments rest := by
  induction segments generalizing text with
  | nil => exact absurd rfl hne
  | cons segment more ih =>
    cases more with
    | nil =>
      rw [matchesAfterWildcard, List.isSuffixOf_iff_suffix]
      simp only [alternates_singleton_iff]
      constructor
      · rintro ⟨run, rfl⟩
        exact ⟨run, segment, rfl, rfl⟩
      · rintro ⟨run, rest, rfl, rfl⟩
        exact List.suffix_append run rest
    | cons next more =>
      have hmore : next :: more ≠ [] := List.cons_ne_nil _ _
      rw [matchesAfterWildcard]
      · simp only [alternates_cons_iff hmore]
        constructor
        · intro h
          split at h
          · rename_i rest hfirst
            obtain ⟨run, rfl⟩ := exists_of_afterFirst? hfirst
            obtain ⟨run', rest', rfl, hrest⟩ := (ih hmore).mp h
            exact ⟨run, _, by simp, run', rest', rfl, hrest⟩
          · cases h
        · rintro ⟨run, _, htext, run', rest, rfl, hrest⟩
          -- What the first place leaves beyond the other one goes to the next wildcard.
          have hplace : text = run ++ segment ++ (run' ++ rest) := by simpa using htext
          obtain ⟨longest, hfirst, beyond, rfl⟩ := suffix_afterFirst? hplace
          rw [hfirst]
          refine (ih hmore).mpr ⟨beyond ++ run', rest, ?_, hrest⟩
          exact (List.append_assoc _ _ _).symm
      · nofun

theorem matchesSegments_iff (hne : segments ≠ []) :
    matchesSegments segments text = true ↔ Alternates segments text := by
  match segments with
  | [] => exact absurd rfl hne
  | [only] => rw [matchesSegments, beq_iff_eq, alternates_singleton_iff, eq_comm]
  | first :: next :: more =>
    have hmore : next :: more ≠ [] := List.cons_ne_nil _ _
    rw [matchesSegments, alternates_cons_iff hmore]
    · constructor
      · intro h
        split at h
        · rename_i rest hprefix
          obtain rfl := afterPrefix?_eq_some_iff.mp hprefix
          obtain ⟨run, rest', rfl, hrest⟩ := (matchesAfterWildcard_iff hmore).mp h
          exact ⟨run, rest', (List.append_assoc _ _ _).symm, hrest⟩
        · cases h
      · rintro ⟨run, rest, rfl, hrest⟩
        rw [List.append_assoc, afterPrefix?_eq_some_iff.mpr rfl]
        exact (matchesAfterWildcard_iff hmore).mpr ⟨run, rest, rfl, hrest⟩
    · nofun

end Matching

theorem sameUpToCase_iff {s t : List Char} :
    SameUpToCase s t ↔ s.map Text.fold = t.map Text.fold := by
  rw [← List.forall₂_eq_eq_eq, List.forall₂_map_left_iff, List.forall₂_map_right_iff]

theorem isMatch_iff {pattern text : String} :
    isMatch pattern text = true ↔ Describes pattern text := by
  have hne : (pattern.toList.splitOn '%').map (List.map Text.fold) ≠ [] := by simp
  rw [isMatch, matchesSegments_iff hne, alternates_map_iff]
  refine exists_congr fun parts => and_congr_left fun _ => ?_
  rw [eq_comm, ← List.forall₂_eq_eq_eq, List.forall₂_map_left_iff, List.forall₂_map_right_iff]
  exact ⟨fun h => h.imp fun _ _ => sameUpToCase_iff.mpr,
    fun h => h.imp fun _ _ => sameUpToCase_iff.mp⟩

end Wildcard

namespace Predicate

/-- A pattern that compiles decides of every text whether it describes it. Operands other than text
are patterns by their plain text. -/
theorem holds_like_iff [Wildcard.Engine] {operand : Value} (hoperand : operand ≠ .null)
    (hcompiles : Wildcard.Engine.refusal? operand.display = none) (text : String) :
    ∃ fits, (⟨.like, operand⟩ : Predicate).holds (.text text) = .ok fits ∧
      (fits = true ↔ Wildcard.Describes operand.display text) := by
  refine ⟨Wildcard.isMatch operand.display text, ?_, Wildcard.isMatch_iff⟩
  change fitsPattern operand (.text text) = _
  rw [fitsPattern]
  · rw [hcompiles]
  · exact hoperand

/-- The middle segment stands in the text at two places that overlap, the last wildcard takes a line
break, and the Kelvin sign is a letter. -/
theorem holds_like_overlap :
    let _ : Wildcard.Engine := ⟨fun _ => none⟩
    let operand : Value := .text "%b.b%k"
    let text := "aB.b.B\n\u212a"
    operand ≠ .null ∧ Wildcard.Engine.refusal? operand.display = none ∧
      (⟨.like, operand⟩ : Predicate).holds (.text text) = .ok true ∧
        Wildcard.Describes operand.display text := by
  intro _ operand text
  have hoperand : operand ≠ .null := nofun
  have hholds : (⟨.like, operand⟩ : Predicate).holds (.text text) = .ok true := by decide +kernel
  obtain ⟨fits, hfits, hiff⟩ := holds_like_iff hoperand rfl text
  obtain rfl := Except.ok.inj (hfits.symm.trans hholds)
  exact ⟨hoperand, rfl, hholds, hiff.mp rfl⟩

end Predicate

end FilterLang
