import FilterLang.Proofs.Parsing.SourceOrder
import FilterLang.Proofs.Sql.Unambiguity
import FilterLang.Proofs.Token.Tiling

/-! What the condition of a parsed filter is made of.

A name enters a filter as a word of its text that is not reserved (`isName_of_mem_leaves`), so it
holds nothing but letters, numerals and underscores, and so do the parameter names that are made of
it. The mark of a parameter name is never cut off, since suffixes stay short: no occurrence is much
above the number of names in a statement (`HasRoom`). All else in a condition is one of `fixedTexts`
(`condition_isWritten`). Main statement: `sql_isWritten`. -/

namespace FilterLang

open Parsing Token

section Names

variable {args : List Value}

theorem Token.IsName.continuesWord_of_mem {name : String} (h : IsName name) {c : Char}
    (hc : c ∈ name.toList) : Token.continuesWord c = true :=
  Bool.of_not_eq_false fun hcont => h.notMem hcont hc

/-- A comparison starts with its name. -/
theorem Parsing.mem_of_mem_written {ts : List Token} {leaf : String × Predicate}
    (h : leaf ∈ written args ts) : .identifier leaf.1 ∈ ts := by
  rw [written.eq_def] at h
  split at h
  · rename_i name
    obtain ⟨v, -, rfl⟩ := Option.map_eq_some_iff.mp (Option.mem_toList.mp h)
    exact List.mem_singleton_self _
  · obtain ⟨us, hus, hleaf⟩ := List.mem_filterMap.mp h
    rw [comparisonAt?.eq_def] at hleaf
    split at hleaf
    · obtain ⟨v, -, rfl⟩ := Option.map_eq_some_iff.mp hleaf
      exact ((List.mem_tails _ _).mp hus).subset List.mem_cons_self
    · cases hleaf

theorem Parsing.length_written_le (args : List Value) (ts : List Token) :
    (written args ts).length ≤ ts.length + 1 := by
  rw [written.eq_def]
  split
  · cases args <;> simp
  · exact List.length_tails ts ▸ List.length_filterMap_le _ _

/-- The leaves of a parsed filter have names that are words of the text and not reserved, and there
are not many more of them than the text has bytes. -/
theorem isName_of_mem_leaves {input : String} {q : Qualifier} (h : parse input args = .ok q) :
    (∀ leaf ∈ q.leaves, IsName leaf.1) ∧ q.leaves.length ≤ input.utf8ByteSize + 1 := by
  obtain ⟨ts, hts, hq⟩ := standsFor_of_parse h
  obtain ⟨-, rfl⟩ := Reading.tokens_start_eq_ok_iff.mp hts
  rw [hq.leaves_eq]
  constructor
  · intro leaf hleaf
    obtain ⟨t, ht, hname⟩ := List.mem_map.mp (mem_of_mem_written hleaf)
    exact (Cursor.start input).isName_of_mem_reading t ht hname
  · refine (length_written_le args _).trans ?_
    rw [List.length_map, ← byteLength_toList]
    exact Nat.succ_le_succ (Reading.tiling_ofText input).length_tokens_le

end Names

namespace Sql

/-- The words and the punctuation of conditions. -/
def fixedTexts : List String :=
  ["", "(", ")", " AND ", " OR ", " IS NULL", " IS NOT NULL", " = ", " <> ", " < ", " > ", " <= ",
    " >= ", " LIKE ", " ILIKE ", "UPPER(", ") LIKE UPPER(", "1 = 1", "1 = 0"]

/-- What a condition is put together from. -/
inductive Written (d : Dialect) : String → Prop
  | fixed {text : String} (h : text ∈ fixedTexts) : Written d text
  /-- A word that is not reserved, in quotes where the dialect uses them. -/
  | identifier {name : String} (hword : isWord name = true)
    (hreserved : ∀ word ∈ reservedWords, Text.sameWord name word = false) :
    Written d (d.identifier name)
  /-- The mark of the dialect, and letters, numerals and underscores. -/
  | parameter {text : String} {tail : List Char} (htext : text.toList = d.parameterMark :: tail)
    (htail : ∀ c ∈ tail, continuesWord c = true) : Written d text

theorem Written.keyword (d : Dialect) {text : String} (h : text ∈ fixedTexts) :
    Written d ((Piece.keyword text).text d) := .fixed h

theorem Written.of_isName (d : Dialect) {name : String} (h : IsName name) :
    Written d (d.identifier name) :=
  .identifier h.isWord_eq h.not_reserved

namespace NameSupply

variable {d : Dialect} {s : NameSupply} {count : Nat}

/-- A supply in a statement for which so many names are still to be given out; its occurrences have
64 bits. -/
structure HasRoom (d : Dialect) (s : NameSupply) (count : Nat) : Prop where
  tried : s.Tried d
  length_le : s.taken.length + count + 2 ≤ 2 ^ 64

theorem HasRoom.mono {count' : Nat} (h : s.HasRoom d count) (hle : count' ≤ count) :
    s.HasRoom d count' :=
  ⟨h.tried, by have := h.length_le; omega⟩

theorem HasRoom.next (h : s.HasRoom d (count + 1)) (column : String) :
    (s.next d column).2.HasRoom d count := by
  refine ⟨h.tried.next column, ?_⟩
  have := h.length_le
  rw [taken_next, List.length_cons]
  omega

theorem HasRoom.isNameFor (h : s.HasRoom d (count + 1)) (column : String) :
    IsNameFor d (sanitize column) (occurrenceSuffix (s.occurrence d column))
      (s.next d column).1 := by
  refine isNameFor_candidate d _ ?_
  have := h.tried.occurrence_le column
  have := h.length_le
  omega

theorem continuesWord_of_mem_sanitize {column : String} (h : IsName column) {c : Char}
    (hc : c ∈ (sanitize column).toList) : continuesWord c = true := by
  rw [sanitize, String.toList_ofList, List.mem_map] at hc
  obtain ⟨c', hc', rfl⟩ := hc
  split
  · rfl
  · exact h.continuesWord_of_mem hc'

theorem continuesWord_of_mem_occurrenceSuffix {n : Nat} {c : Char}
    (hc : c ∈ (occurrenceSuffix n).toList) : continuesWord c = true := by
  rw [occurrenceSuffix] at hc
  split at hc
  · cases hc
  · rw [String.toList_ofList] at hc
    rcases List.mem_cons.mp hc with rfl | hdigit
    · rfl
    · have hnumeral := isNumeral_of_isDigit (Text.isDigit_of_mem_decimal hdigit)
      rw [continuesWord, hnumeral, Bool.or_true, Bool.true_or]

/-- A parameter for a name is the mark with characters of words behind it. -/
theorem HasRoom.isWritten (h : s.HasRoom d (count + 1)) {column : String} (hname : IsName column) :
    Written d (s.next d column).1 := by
  obtain ⟨kept, hkept, htext⟩ := (h.isNameFor column).toList_eq
  refine .parameter htext fun c hc => ?_
  rcases List.mem_append.mp hc with hc | hc
  · exact continuesWord_of_mem_sanitize hname (hkept.subset hc)
  · exact continuesWord_of_mem_occurrenceSuffix hc

end NameSupply

/-- Each piece of a fragment is written as it should be. -/
def Fragment.IsWritten (d : Dialect) (f : Fragment) : Prop :=
  ∀ piece ∈ f, Written d (piece.text d)

namespace Fragment

variable {d : Dialect}

theorem IsWritten.separate {separator : String} (hseparator : separator ∈ fixedTexts)
    {fs : List Fragment} (h : ∀ f ∈ fs, IsWritten d f) : IsWritten d (separate separator fs) := by
  induction fs with
  | nil => exact List.forall_mem_nil _
  | cons f fs ih =>
    obtain ⟨hf, hfs⟩ := List.forall_mem_cons.mp h
    cases fs with
    | nil => exact hf
    | cons g fs =>
      refine List.forall_mem_append.mpr ⟨hf, List.forall_mem_cons.mpr ⟨?_, ih hfs⟩⟩
      exact .keyword d hseparator

theorem IsWritten.parenthesized {f : Fragment} (h : IsWritten d f) :
    IsWritten d (.keyword "(" :: (f ++ [.keyword ")"])) := by
  refine List.forall_mem_cons.mpr ⟨.keyword d (by decide), List.forall_mem_append.mpr ⟨h, ?_⟩⟩
  exact List.forall_mem_singleton.mpr (.keyword d (by decide))

end Fragment

variable {d : Dialect} {t : Table} {b b' : Binder} {count : Nat}

theorem boundFragment_isWritten {column name : String} (hcolumn : IsName column)
    (hname : Written d name) (c : Comparison) : (boundFragment d column c name).IsWritten d := by
  have hidentifier := Written.of_isName d hcolumn
  rw [boundFragment]
  split
  · have hlike : ∀ text ∈ [d.likeForm.before, d.likeForm.between, d.likeForm.after],
        text ∈ fixedTexts := by
      cases d <;> simp only [Dialect.likeForm] <;> decide
    simp only [Fragment.IsWritten, likeFragment, List.forall_mem_cons] at hlike ⊢
    exact ⟨.fixed hlike.1, hidentifier, .fixed hlike.2.1, hname, .fixed hlike.2.2.1,
      List.forall_mem_nil _⟩
  · rename_i hlike
    have hsymbol : " " ++ c.sqlSymbol ++ " " ∈ fixedTexts := by
      cases c <;> first | exact (hlike rfl).elim | decide
    simp only [Fragment.IsWritten, List.forall_mem_cons]
    exact ⟨hidentifier, .fixed hsymbol, hname, List.forall_mem_nil _⟩

theorem comparison_isWritten {column : String} {p : Predicate} {f : Fragment}
    (h : comparison d t column p b = .ok (f, b')) (hcolumn : IsName column)
    (hroom : b.names.HasRoom d (count + 1)) : f.IsWritten d ∧ b'.names.HasRoom d count := by
  have hnull : ∀ text ∈ fixedTexts, Fragment.IsWritten d [.identifier column, .keyword text] := by
    intro text htext
    simp only [Fragment.IsWritten, List.forall_mem_cons]
    exact ⟨.of_isName d hcolumn, .fixed htext, List.forall_mem_nil _⟩
  rcases comparison_ok h with ⟨-, rfl, rfl⟩ | ⟨-, rfl, rfl⟩ | ⟨-, name, hbind, rfl⟩
  · exact ⟨hnull _ (by decide), hroom.mono (Nat.le_succ _)⟩
  · exact ⟨hnull _ (by decide), hroom.mono (Nat.le_succ _)⟩
  · obtain ⟨_, -, rfl, rfl⟩ := Binder.bind_ok hbind
    exact ⟨boundFragment_isWritten hcolumn (hroom.isWritten hcolumn) _, hroom.next column⟩

mutual

/-- The condition of a filter whose leaves have plain names. -/
theorem condition_isWritten {q : Qualifier} {f : Fragment} {b b' : Binder} {count : Nat}
    (h : condition d t q b = .ok (f, b')) (hnames : ∀ leaf ∈ q.leaves, IsName leaf.1)
    (hroom : b.names.HasRoom d (count + q.leaves.length)) :
    f.IsWritten d ∧ b'.names.HasRoom d count := by
  match q with
  | .column name p | .property name p =>
    rw [condition] at h
    exact comparison_isWritten h (hnames (name, p) (List.mem_singleton_self _)) hroom
  | .path elements target =>
    rw [condition] at h
    cases h
  | .clause c [] =>
    rw [condition] at h
    cases h
    refine ⟨?_, hroom⟩
    cases c <;> exact List.forall_mem_singleton.mpr (.keyword d (by decide))
  | .clause c (q :: rest) =>
    rw [condition] at h
    · split at h
      · rename_i hparts
        cases h
        rw [Qualifier.leaves_clause] at hnames hroom
        obtain ⟨hfs, hroom'⟩ := conditions_isWritten hparts hnames hroom
        refine ⟨.separate ?_ hfs, hroom'⟩
        cases c <;> decide
      · cases h
    · nofun

theorem conditions_isWritten {qs : List Qualifier} {fs : List Fragment} {b b' : Binder}
    {count : Nat} (h : conditions d t qs b = .ok (fs, b'))
    (hnames : ∀ leaf ∈ qs.flatMap Qualifier.leaves, IsName leaf.1)
    (hroom : b.names.HasRoom d (count + (qs.flatMap Qualifier.leaves).length)) :
    (∀ f ∈ fs, f.IsWritten d) ∧ b'.names.HasRoom d count := by
  match qs with
  | [] =>
    rw [conditions] at h
    cases h
    exact ⟨List.forall_mem_nil _, hroom⟩
  | q :: rest =>
    obtain ⟨f, b₁, fs', hfirst, hrest, rfl⟩ := conditions_cons_ok h
    rw [List.flatMap_cons] at hnames hroom
    obtain ⟨hqnames, hrestnames⟩ := List.forall_mem_append.mp hnames
    rw [List.length_append, Nat.add_comm q.leaves.length, ← Nat.add_assoc] at hroom
    obtain ⟨hf, hroom₁⟩ := condition_isWritten hfirst hqnames hroom
    obtain ⟨hfs, hroom'⟩ := conditions_isWritten hrest hrestnames hroom₁
    exact ⟨List.forall_mem_cons.mpr ⟨hf.parenthesized, hfs⟩, hroom'⟩

end

/-- The condition of a parsed filter is put together from fixed texts, from identifiers that are
words and not reserved, and from parameter names of the same characters, and from nothing else. No
text in memory reaches the bound on its size. -/
theorem sql_isWritten {input : String} {args : List Value} {q : Qualifier} {c : Command}
    (hsize : input.utf8ByteSize < 2 ^ 63) (hparse : parse input args = .ok q)
    (hcompile : compileQualifier d t q = .ok c) :
    ∃ texts, c.sql = String.join texts ∧ ∀ text ∈ texts, Written d text := by
  obtain ⟨hnames, hlength⟩ := isName_of_mem_leaves hparse
  obtain ⟨⟨f, b⟩, hcondition, rfl⟩ := exists_of_map_eq_ok hcompile
  have hroom : NameSupply.HasRoom d {} (0 + q.leaves.length) := by
    refine ⟨.empty d, ?_⟩
    change 0 + (0 + q.leaves.length) + 2 ≤ 2 ^ 64
    omega
  obtain ⟨hf, -⟩ := condition_isWritten hcondition hnames hroom
  refine ⟨f.map (Piece.text d), rfl, fun text htext => ?_⟩
  obtain ⟨piece, hpiece, rfl⟩ := List.mem_map.mp htext
  exact hf piece hpiece

/-- Neither of the two values gets into the text. -/
theorem sql_isWritten_oracle :
    let input := "title = 'x); DROP TABLE film' and title like {0}"
    let args := [.text "' OR '1' = '1"]
    let q : Qualifier := .clause .and [.property "title" ⟨.equals, .text "x); DROP TABLE film"⟩,
      .property "title" ⟨.like, .text "' OR '1' = '1"⟩]
    input.utf8ByteSize < 2 ^ 63 ∧ parse input args = .ok q ∧
      ∃ c, compileQualifier .oracle ⟨"film", []⟩ q = .ok c ∧
        c.sql = "(title = :title) AND (UPPER(title) LIKE UPPER(:title_2))" ∧
        ∃ texts, c.sql = String.join texts ∧ ∀ text ∈ texts, Written .oracle text := by
  intro input args q
  have hsize : input.utf8ByteSize < 2 ^ 63 := by decide +kernel
  have hparse : parse input args = .ok q := by decide +kernel
  obtain ⟨c, hcompile⟩ : ∃ c, compileQualifier .oracle ⟨"film", []⟩ q = .ok c := ⟨_, rfl⟩
  have hsql : (compileQualifier .oracle ⟨"film", []⟩ q).map Command.sql =
      .ok "(title = :title) AND (UPPER(title) LIKE UPPER(:title_2))" := by
    decide +kernel
  rw [hcompile] at hsql
  exact ⟨hsize, hparse, c, hcompile, Except.ok.inj hsql, sql_isWritten hsize hparse hcompile⟩

end Sql

end FilterLang
