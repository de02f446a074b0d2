import Mathlib.Data.List.Basic
import FilterLang.Proofs.Evaluation.Clause
import FilterLang.Proofs.Parsing.Acceptance

/-! Parsed filters evaluate like their terms nested as they are written.

`Nests` is the grammar in which every connective makes a clause of the two filters beside it, so
that terms nest to the left and no clause is ever extended. Along a derivation the joined filter and
the nested one evaluate alike (`Nests.exists_derives`). Main statement:
`evaluate_join_and_parse`. -/

namespace FilterLang

namespace Qualifier

variable [Wildcard.Engine]

/-- Filters that can be evaluated, and that hold and fail alike for every object. -/
structure SameEvaluation (q q' : Qualifier) : Prop where
  supports : q.supportsEvaluation = true
  supports' : q'.supportsEvaluation = true
  evaluate_eq : ∀ e : Entity, q.evaluate e = q'.evaluate e

namespace SameEvaluation

theorem property (name : String) (p : Predicate) :
    SameEvaluation (.property name p) (.property name p) :=
  ⟨rfl, rfl, fun _ => rfl⟩

theorem path (elements : List String) {q q' : Qualifier} (h : SameEvaluation q q') :
    SameEvaluation (.path elements q) (.path elements q') := by
  refine ⟨h.supports, h.supports', fun e => ?_⟩
  rw [evaluate, evaluate, funext h.evaluate_eq]

theorem join (c : Connective) {left left' right right' : Qualifier}
    (hleft : SameEvaluation left left') (hright : SameEvaluation right right') :
    SameEvaluation (join c left right) (.clause c [left', right']) := by
  refine ⟨supportsEvaluation_join c hleft.supports hright.supports,
    supportEvaluation_iff.mpr (supportsEvaluation_pair hleft.supports' hright.supports'),
    fun e => ?_⟩
  rw [evaluate_join c e hleft.supports hright.supports,
    evaluate_clause_pair c e hleft.supports hright.supports,
    evaluate_clause_pair c e hleft.supports' hright.supports', hleft.evaluate_eq,
    hright.evaluate_eq]

end SameEvaluation

end Qualifier

namespace Parsing

/-- The tokens that make a phrase, and the filter in which each connective between them is a clause
of two. -/
inductive Nests (args : List Value) : Phrase → List Token → Qualifier → Prop
  | comparison (name : String) (c : Comparison) {t : Token} {v : Value}
    (h : operandValue? args t = some v) :
    Nests args .atom [.identifier name, .operator c, t] (.property name ⟨c, v⟩)
  | group {ts : List Token} {q : Qualifier} (h : Nests args .filter ts q) :
    Nests args .atom (.openGroup :: (ts ++ [.closeGroup])) q
  | path (elements : List String) {ts : List Token} {q : Qualifier} (h : Nests args .atom ts q) :
    Nests args .term (pathTokens elements ++ ts) (underPath elements q)
  | term {ts : List Token} {q : Qualifier} (h : Nests args .term ts q) : Nests args .filter ts q
  | clause (c : Connective) {ls rs : List Token} {l r : Qualifier} (hl : Nests args .filter ls l)
    (hr : Nests args .term rs r) :
    Nests args .filter (ls ++ .connective c :: rs) (.clause c [l, r])

/-- The filters for which tokens stand without any clause extended; a single name is compared with
the first argument. -/
inductive StandsForNested (args : List Value) (ts : List Token) (q : Qualifier) : Prop
  | nested (h : Nests args .filter ts q)
  | shorthand {name : String} {v : Value} (hts : ts = [.identifier name])
    (hv : args.head? = some v) (hq : q = .property name ⟨.equals, v⟩)

variable {args : List Value}

theorem Derives.exists_nests {p : Phrase} {ts : List Token} {q : Qualifier}
    (h : Derives args p ts q) : ∃ n, Nests args p ts n := by
  induction h with
  | comparison name c hv => exact ⟨_, .comparison name c hv⟩
  | group _ ih =>
    obtain ⟨n, hn⟩ := ih
    exact ⟨n, .group hn⟩
  | path elements _ ih =>
    obtain ⟨n, hn⟩ := ih
    exact ⟨_, .path elements hn⟩
  | term _ ih =>
    obtain ⟨n, hn⟩ := ih
    exact ⟨n, .term hn⟩
  | join c _ _ ihl ihr =>
    obtain ⟨l, hl⟩ := ihl
    obtain ⟨r, hr⟩ := ihr
    exact ⟨_, .clause c hl hr⟩

theorem underPath_sameEvaluation [Wildcard.Engine] (elements : List String) {q q' : Qualifier}
    (h : q.SameEvaluation q') :
    (underPath elements q).SameEvaluation (underPath elements q') := by
  cases elements with
  | nil => exact h
  | cons name names => exact h.path (name :: names)

/-- Nested tokens derive a filter that evaluates alike. -/
theorem Nests.exists_derives [Wildcard.Engine] {p : Phrase} {ts : List Token} {n : Qualifier}
    (h : Nests args p ts n) : ∃ q, Derives args p ts q ∧ q.SameEvaluation n := by
  induction h with
  | comparison name c hv => exact ⟨_, .comparison name c hv, .property name _⟩
  | group _ ih =>
    obtain ⟨q, hq, hsame⟩ := ih
    exact ⟨q, .group hq, hsame⟩
  | path elements _ ih =>
    obtain ⟨q, hq, hsame⟩ := ih
    exact ⟨_, .path elements hq, underPath_sameEvaluation elements hsame⟩
  | term _ ih =>
    obtain ⟨q, hq, hsame⟩ := ih
    exact ⟨q, .term hq, hsame⟩
  | clause c _ _ ihl ihr =>
    obtain ⟨l, hl, hleft⟩ := ihl
    obtain ⟨r, hr, hright⟩ := ihr
    exact ⟨_, .join c hl hr, hleft.join c hright⟩

theorem StandsFor.exists_nested {ts : List Token} {q : Qualifier} (h : StandsFor args ts q) :
    ∃ n, StandsForNested args ts n := by
  cases h with
  | derived h =>
    obtain ⟨n, hn⟩ := h.exists_nests
    exact ⟨n, .nested hn⟩
  | shorthand hts hv hq => exact ⟨q, .shorthand hts hv hq⟩

theorem StandsForNested.exists_standsFor [Wildcard.Engine] {ts : List Token} {n : Qualifier}
    (h : StandsForNested args ts n) : ∃ q, StandsFor args ts q ∧ q.SameEvaluation n := by
  cases h with
  | nested h =>
    obtain ⟨q, hq, hsame⟩ := h.exists_derives
    exact ⟨q, .derived hq, hsame⟩
  | shorthand hts hv hn =>
    subst hn
    exact ⟨_, .shorthand hts hv rfl, .property _ _⟩

end Parsing

open Parsing Qualifier

/-- Joining two filters that can be evaluated changes nothing of how the clause of the two
evaluates, the error included; and so a parsed filter evaluates like the terms of its text nested to
the left, for which there is always a filter. -/
theorem evaluate_join_and_parse [Wildcard.Engine] :
    (∀ (c : Connective) (left right : Qualifier), left.supportsEvaluation = true →
      right.supportsEvaluation = true →
        ∀ e : Entity, (join c left right).evaluate e = (clause c [left, right]).evaluate e) ∧
    ∀ (input : String) (args : List Value) (q : Qualifier), parse input args = .ok q →
      ∃ ts, (Cursor.start input).tokens = .ok ts ∧
        (∃ n, StandsForNested args (ts.map (·.token)) n) ∧
        ∀ n, StandsForNested args (ts.map (·.token)) n →
          ∀ e : Entity, q.evaluate e = n.evaluate e := by
  refine ⟨fun c left right hleft hright e => evaluate_join c e hleft hright, ?_⟩
  intro input args q h
  obtain ⟨ts, hts, hq⟩ := standsFor_of_parse h
  refine ⟨ts, hts, hq.exists_nested, fun n hn e => ?_⟩
  obtain ⟨q', hq', hsame⟩ := hn.exists_standsFor
  have hparse := hq'.parse_eq hts
  rw [h] at hparse
  cases hparse
  exact hsame.evaluate_eq e

/-- Both sides of a group are taken up by one clause, which evaluates like the nested ones. -/
theorem evaluate_join_and_parse_group :
    let _ : Wildcard.Engine := ⟨fun _ => none⟩
    let a : Qualifier := .property "a" ⟨.equals, .int 1⟩
    let b : Qualifier := .property "b" ⟨.like, .int 2⟩
    let c : Qualifier := .property "c" ⟨.equals, .null⟩
    let input := "a = 1 or (b like {0} or c = null)"
    parse input [.int 2] = .ok (.clause .or [a, b, c]) ∧
      join .or a (.clause .or [b, c]) = .clause .or [a, b, c] ∧
      (∀ e : Entity, (clause .or [a, b, c]).evaluate e =
        (clause .or [a, .clause .or [b, c]]).evaluate e) ∧
      ∀ e : Entity, (join .or a (.clause .or [b, c])).evaluate e =
        (clause .or [a, .clause .or [b, c]]).evaluate e := by
  intro _ a b c input
  obtain ⟨hjoin, hnested⟩ := evaluate_join_and_parse
  have hparse : parse input [.int 2] = .ok (.clause .or [a, b, c]) := by decide +kernel
  refine ⟨hparse, by decide, ?_, hjoin .or a (.clause .or [b, c]) rfl rfl⟩
  obtain ⟨ts, hts, -, hnested⟩ := hnested input [.int 2] _ hparse
  have htokens : (Cursor.start input).tokens.map (List.map (·.token)) = .ok
      [.identifier "a", .operator .equals, .constant (.int 1), .connective .or, .openGroup,
        .identifier "b", .operator .like, .parameter 0, .connective .or,
        .identifier "c", .operator .equals, .constant .null, .closeGroup] := by decide +kernel
  rw [hts] at htokens
  refine hnested _ (.nested ?_)
  rw [Except.ok.inj htokens]
  have hb : Nests [.int 2] .term [.identifier "b", .operator .like, .parameter 0] b :=
    .path [] (.comparison "b" .like rfl)
  have hc : Nests [.int 2] .term [.identifier "c", .operator .equals, .constant .null] c :=
    .path [] (.comparison "c" .equals rfl)
  have ha : Nests [.int 2] .term [.identifier "a", .operator .equals, .constant (.int 1)] a :=
    .path [] (.comparison "a" .equals rfl)
  exact .clause .or (.term ha) (.path [] (.group (.clause .or (.term hb) hc)))

end FilterLang
