import Mathlib.Data.List.Infix
import FilterLang.Proofs.Parsing.Acceptance
import FilterLang.Proofs.Qualifier.Join

/-! The leaves of a parsed filter stand in the order of the text.

`comparisons` finds the comparisons in a list of tokens by looking at every place, with no regard to
groups, paths and connectives. No comparison lies across the border of two phrases, so a phrase has
its own comparisons as leaves, whatever comes after it (`Derives.comparisons_append`). Main
statement: `leaves_of_parse`. -/

namespace FilterLang

namespace Parsing

/-- The comparison at the front of a list of tokens: a name, an operator and what stands for a
value. -/
def comparisonAt? (args : List Value) : List Token → Option (String × Predicate)
  | .identifier name :: .operator c :: t :: _ =>
    (operandValue? args t).map fun v => (name, ⟨c, v⟩)
  | _ => none

/-- The comparisons in a list of tokens, from left to right. -/
def comparisons (args : List Value) (ts : List Token) : List (String × Predicate) :=
  ts.tails.filterMap (comparisonAt? args)

/-- The comparisons for which tokens stand: a single name is compared with the first argument. -/
def written (args : List Value) : List Token → List (String × Predicate)
  | [.identifier name] => (args.head?.map fun v => (name, ⟨.equals, v⟩)).toList
  | ts => comparisons args ts

/-- What may stand behind a phrase: anything but an operator. -/
def EndsPhrase (ts : List Token) : Prop := ∀ c us, ts ≠ .operator c :: us

theorem endsPhrase_nil : EndsPhrase [] := nofun

theorem endsPhrase_connective (c : Connective) (ts : List Token) :
    EndsPhrase (.connective c :: ts) := by
  intro d us h
  cases h

theorem endsPhrase_closeGroup (ts : List Token) : EndsPhrase (.closeGroup :: ts) := by
  intro c us h
  cases h

variable {args : List Value}

theorem comparisons_nil : comparisons args [] = [] := rfl

theorem comparisons_cons_of_eq_none {t : Token} {ts : List Token}
    (h : comparisonAt? args (t :: ts) = none) :
    comparisons args (t :: ts) = comparisons args ts := by
  rw [comparisons, List.tails_cons, List.filterMap_cons_none h, comparisons]

theorem comparisons_cons_of_eq_some {t : Token} {ts : List Token} {leaf : String × Predicate}
    (h : comparisonAt? args (t :: ts) = some leaf) :
    comparisons args (t :: ts) = leaf :: comparisons args ts := by
  rw [comparisons, List.tails_cons, List.filterMap_cons_some h, comparisons]

theorem comparisonAt?_eq_none {ts : List Token} (h : EndsPhrase ts) (t : Token) :
    comparisonAt? args (t :: ts) = none := by
  cases t with
  | identifier name =>
    cases ts with
    | nil => rfl
    | cons u us =>
      cases u with
      | operator c => exact (h c us rfl).elim
      | _ => rfl
  | _ => rfl

/-- No comparison reaches into a path. -/
theorem comparisons_pathTokens (elements : List String) (ts : List Token) :
    comparisons args (pathTokens elements ++ ts) = comparisons args ts := by
  induction elements with
  | nil => rfl
  | cons name elements ih =>
    rw [← ih]
    change comparisons args (.identifier name :: .separator :: (pathTokens elements ++ ts)) = _
    rw [comparisons_cons_of_eq_none rfl, comparisons_cons_of_eq_none rfl]

theorem leaves_underPath (elements : List String) (q : Qualifier) :
    (underPath elements q).leaves = q.leaves := by
  cases elements with
  | nil => rfl
  | cons name names => exact q.leaves_path (name :: names)

/-- The comparisons in a phrase are the leaves of the filter for which it stands. -/
theorem Derives.comparisons_append {p : Phrase} {ts : List Token} {q : Qualifier}
    (h : Derives args p ts q) {rest : List Token} (hrest : EndsPhrase rest) :
    comparisons args (ts ++ rest) = q.leaves ++ comparisons args rest := by
  induction h generalizing rest with
  | @comparison name c t v hv =>
    have hleaf : comparisonAt? args (.identifier name :: .operator c :: t :: rest) =
        some (name, ⟨c, v⟩) := by
      rw [comparisonAt?, hv]
      rfl
    change comparisons args (.identifier name :: .operator c :: t :: rest) = _
    rw [comparisons_cons_of_eq_some hleaf, comparisons_cons_of_eq_none rfl,
      comparisons_cons_of_eq_none (comparisonAt?_eq_none hrest t), Qualifier.leaves_property,
      List.singleton_append]
  | @group ts q _ ih =>
    rw [List.cons_append, List.append_assoc, comparisons_cons_of_eq_none rfl]
    change comparisons args (ts ++ .closeGroup :: rest) = _
    rw [ih (endsPhrase_closeGroup rest), comparisons_cons_of_eq_none rfl]
  | path elements _ ih =>
    rw [List.append_assoc, comparisons_pathTokens, leaves_underPath]
    exact ih hrest
  | term _ ih => exact ih hrest
  | @join c ls rs l r _ _ ihl ihr =>
    rw [List.append_assoc, List.cons_append, ihl (endsPhrase_connective c _),
      comparisons_cons_of_eq_none rfl, ihr hrest, Qualifier.leaves_join, List.append_assoc]

/-- A phrase has more than one token. -/
theorem Derives.one_lt_length {p : Phrase} {ts : List Token} {q : Qualifier}
    (h : Derives args p ts q) : 1 < ts.length := by
  induction h with
  | comparison name c hv => simp only [List.length_cons]; omega
  | group _ ih =>
    rw [List.length_cons, List.length_append]
    omega
  | path elements _ ih =>
    rw [List.length_append]
    omega
  | term _ ih => exact ih
  | join c _ _ ihl ihr =>
    rw [List.length_append]
    omega

theorem written_of_one_lt_length {ts : List Token} (h : 1 < ts.length) :
    written args ts = comparisons args ts := by
  rw [written]
  rintro name rfl
  exact Nat.lt_irrefl 1 h

theorem StandsFor.leaves_eq {ts : List Token} {q : Qualifier} (h : StandsFor args ts q) :
    q.leaves = written args ts := by
  cases h with
  | derived h =>
    have hleaves := h.comparisons_append endsPhrase_nil
    rw [List.append_nil, comparisons_nil, List.append_nil] at hleaves
    rw [written_of_one_lt_length h.one_lt_length, hleaves]
  | shorthand hts hv hq =>
    rw [hts, hq, written, hv, Qualifier.leaves_property]
    rfl

end Parsing

open Parsing

/-- The leaves of a parsed filter are the comparisons that its tokens spell, in their order. -/
theorem leaves_of_parse {input : String} {args : List Value} {q : Qualifier}
    (h : parse input args = .ok q) :
    ∃ ts, (Cursor.start input).tokens = .ok ts ∧ q.leaves = written args (ts.map (·.token)) := by
  obtain ⟨ts, hts, hq⟩ := standsFor_of_parse h
  exact ⟨ts, hts, hq.leaves_eq⟩

theorem leaves_of_parse_nested :
    let input := "(a = 1 or b.c < {1}) and d = TRUE or e like {0}"
    let args := [.text "x%", .int 7]
    let q : Qualifier := .clause .or
      [.clause .and
        [.clause .or
          [.property "a" ⟨.equals, .int 1⟩, .path ["b"] (.property "c" ⟨.lessThan, .int 7⟩)],
        .property "d" ⟨.equals, .bool true⟩],
      .property "e" ⟨.like, .text "x%"⟩]
    parse input args = .ok q ∧
      ∃ ts, (Cursor.start input).tokens = .ok ts ∧ q.leaves = written args (ts.map (·.token)) := by
  intro input args q
  have h : parse input args = .ok q := by decide +kernel
  exact ⟨h, leaves_of_parse h⟩

end FilterLang
