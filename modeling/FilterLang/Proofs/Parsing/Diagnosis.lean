import FilterLang.Proofs.Parsing.Acceptance
import FilterLang.Proofs.Token.Tiling

/-! Which error a text is refused with.

An operator and the token behind it are reduced at once, whatever lies below them on the stack, so
that a wrong operand is found where it is read (`advance_eq_error`, `exists_advance_eq_ok`). Errors
of that kind and of the lexer come up in the order of the text (`run_of_firstError?`), and what is
left to find at its end is how the stack fails to be one filter. Main statement:
`parse_diagnosis`. -/

namespace FilterLang

open Parsing Parsing.Stack

variable {args : List Value}

def Token.isOperator : Token → Bool
  | operator _ => true
  | _ => false

namespace Parsing

/-- What is wrong with a token behind an operator: the argument that it refers to is not given, or
it is a bare word that is no boolean. -/
def operandError? (args : List Value) (t : PlacedToken) : Option ParseError :=
  match t.token with
  | .parameter index =>
    if index < args.length then none
    else some (.argumentOutOfRange index t.span.start args.length)
  | .identifier word =>
    if Text.sameWord word "true" || Text.sameWord word "false" then none
    else some (.invalidBoolean word t.span.start)
  | _ => none

/-- The first error among tokens and the error of the lexer that ends them, if one does, an operator
before them or not. -/
def firstError? (args : List Value) (afterOperator : Bool) :
    List PlacedToken → Option LexError → Option ParseError
  | [], e? => e?.map .lex
  | t :: ts, e? =>
    (if afterOperator then operandError? args t else none).or
      (firstError? args t.token.isOperator ts e?)

theorem operand?_eq_error_iff {t : PlacedToken} {e : ParseError} :
    operand? args t = some (.error e) ↔ operandError? args t = some e := by
  obtain ⟨t, span⟩ := t
  cases t with
  | parameter index =>
    by_cases h : index < args.length
    · simp [operand?, operandError?, argument, h]
    · simp [operand?, operandError?, argument, h]
  | identifier word =>
    simp only [operand?, operandError?, booleanWord?]
    by_cases htrue : Text.sameWord word "true" = true
    · simp [htrue]
    · by_cases hfalse : Text.sameWord word "false" = true
      · simp [htrue, hfalse]
      · simp [htrue, hfalse]
  | _ => simp [operand?, operandError?]

theorem isOperator_of_operand?_ne_none {t : PlacedToken} {v : Except ParseError Value}
    (h : operand? args t = some v) : t.token.isOperator = false := by
  obtain ⟨t, span⟩ := t
  cases t with
  | operator c => cases h
  | _ => rfl

namespace Stack

/-- Whether an operator on top waits for its operand. -/
def topIsOperator : Stack → Bool
  | ⟨.token (.operator _), _⟩ :: _ => true
  | _ => false

theorem topIsOperator_token (t : Token) (span : Span) (s : Stack) :
    topIsOperator (⟨.token t, span⟩ :: s) = t.isOperator := by
  cases t <;> rfl

@[simp] theorem topIsOperator_settle (q : Qualifier) (span : Span) (s : Stack) :
    (s.settle q span).topIsOperator = false := by
  fun_induction settle q span s with
  | case1 _ _ _ _ _ _ _ ih => exact ih
  | case2 _ _ _ _ _ ih => exact ih
  | case3 => rfl

@[simp] theorem topIsOperator_settlePredicate (p : Predicate) (span : Span) (s : Stack) :
    (s.settlePredicate p span).topIsOperator = false := by
  fun_cases settlePredicate p span s with
  | case1 => exact topIsOperator_settle ..
  | case2 => rfl

@[simp] theorem topIsOperator_close (span : Span) (s : Stack) :
    (s.close span).topIsOperator = false := by
  fun_cases close span s with
  | case1 => exact topIsOperator_settle ..
  | case2 => rfl

@[simp] theorem topIsOperator_separate (span : Span) (s : Stack) :
    (s.separate span).topIsOperator = false := by
  fun_cases separate span s with
  | case1 | case2 | case3 => rfl

/-- A wrong operand is found as soon as it stands behind its operator. -/
theorem advance_eq_error {s : Stack} {t : PlacedToken} {e : ParseError}
    (hs : s.topIsOperator = true) (he : operandError? args t = some e) :
    s.advance args t = .error e := by
  have hoperand := operand?_eq_error_iff.mpr he
  have hput : s.put args t = .error e := by
    fun_cases put args t s with
    | case1 _ _ _ v hv => cases hoperand.symm.trans hv
    | case2 c left s e' he' =>
      cases hoperand.symm.trans he'
      rfl
    | case3 _ _ _ hnone => cases hoperand.symm.trans hnone
    | case4 _ hoperator =>
      rw [topIsOperator] at hs
      · cases hs
      · exact hoperator
  fun_cases advance args s t with
  | case1 ht | case2 ht => rw [operandError?, ht] at he; cases he
  | case3 => exact hput

/-- Nothing else is found out by a single shift. -/
theorem exists_advance_eq_ok {s : Stack} {t : PlacedToken}
    (h : s.topIsOperator = true → operandError? args t = none) :
    ∃ s', s.advance args t = .ok s' ∧ s'.topIsOperator = t.token.isOperator := by
  fun_cases advance args s t with
  | case1 ht => exact ⟨_, rfl, by rw [topIsOperator_close, ht]; rfl⟩
  | case2 ht => exact ⟨_, rfl, by rw [topIsOperator_separate, ht]; rfl⟩
  | case3 =>
    fun_cases put args t s with
    | case1 c left s v hv =>
      refine ⟨_, rfl, ?_⟩
      rw [topIsOperator_settlePredicate, isOperator_of_operand?_ne_none hv]
    | case2 c left s e he =>
      rw [operand?_eq_error_iff, h rfl] at he
      cases he
    | case3 | case4 => exact ⟨_, rfl, topIsOperator_token ..⟩

/-- The first error is the one that shifting the tokens ends with. -/
theorem run_of_firstError? (s : Stack) (c : Cursor) :
    (∀ e, firstError? args s.topIsOperator c.reading.tokens c.reading.error? = some e →
      run args s c = .error e) ∧
    (firstError? args s.topIsOperator c.reading.tokens c.reading.error? = none →
      ∃ s', run args s c = .ok s') := by
  fun_induction Cursor.reading c generalizing s with
  | case1 c c' hnext =>
    refine ⟨fun e he => ?_, fun _ => ⟨s, run_of_next_finished hnext s⟩⟩
    cases he
  | case2 c e c' hnext =>
    constructor
    · rintro _ ⟨⟩
      exact run_of_next_fault hnext s
    · intro hnone
      cases hnone
  | case3 c t c' hnext ih =>
    rw [run_of_next_token hnext, shift_eq_advance, firstError?]
    by_cases hoperand : s.topIsOperator = true → operandError? args t = none
    · obtain ⟨s', hs', htop⟩ := exists_advance_eq_ok hoperand
      have hnone : (if s.topIsOperator = true then operandError? args t else none) = none :=
        ite_eq_right_iff.mpr hoperand
      rw [hs', hnone, Option.none_or, ← htop]
      exact ih s'
    · obtain ⟨hs, hne⟩ := Classical.not_imp.mp hoperand
      obtain ⟨e, he⟩ := Option.ne_none_iff_exists'.mp hne
      rw [advance_eq_error hs he, if_pos hs, he, Option.some_or]
      constructor
      · rintro _ ⟨⟩
        rfl
      · intro hnone
        cases hnone

theorem mem_of_fromBottom? {s : Stack} {place : Nat} {e : Entry}
    (h : s.fromBottom? place = some e) : e ∈ s :=
  List.mem_reverse.mp (List.mem_of_getElem? h)

/-- More than one entry is a fault of one of them. -/
theorem exists_mem_leftover (position : Nat) {s : Stack} (h : 1 < s.length) :
    ∃ e ∈ s, ∃ fault, s.leftover position = .malformed e.span.start fault ∧
      fault ≠ .incomplete := by
  fun_cases leftover position s with
  | case1 span hfirst => exact ⟨_, mem_of_fromBottom? hfirst, _, rfl, nofun⟩
  | case2 e hsecond _ => exact ⟨e, mem_of_fromBottom? hsecond, _, rfl, nofun⟩
  | case3 hsecond _ =>
    have hlength := List.getElem?_eq_none_iff.mp hsecond
    rw [List.length_reverse] at hlength
    omega

/-- A stack is a filter, or a malformed one, unless it is empty or a name that asks for an argument
that is not given. -/
theorem finish_cases (args : List Value) (position : Nat) (s : Stack) :
    (∃ q, s.finish args position = .ok q) ∨
      (∃ place fault, s.finish args position = .error (.malformed place fault)) ∨
      s = [] ∨ args = [] ∧ ∃ name span, s = [⟨.token (.identifier name), span⟩] := by
  fun_cases finish args position s with
  | case1 s hlength =>
    obtain ⟨e, -, fault, h, -⟩ := exists_mem_leftover position hlength
    exact .inr (.inl ⟨e.span.start, fault, by rw [h]⟩)
  | case2 => exact .inr (.inr (.inl rfl))
  | case3 q => exact .inl ⟨q, rfl⟩
  | case4 => exact .inl ⟨_, rfl⟩
  | case5 name span tail e he hlength =>
    obtain rfl : tail = [] := by simpa using hlength
    refine .inr (.inr (.inr ⟨?_, name, span, rfl⟩))
    cases args with
    | nil => rfl
    | cons v args => cases he
  | case6 => exact .inr (.inl ⟨_, _, rfl⟩)

end Stack

end Parsing

/-- The first error in what is read of a text. -/
def Reading.firstError? (args : List Value) (r : Reading) : Option ParseError :=
  Parsing.firstError? args false r.tokens r.error?

/-- Where nothing is wrong on the way, the lexer reads to the end. -/
theorem Parsing.error?_eq_none {ts : List PlacedToken} {afterOperator : Bool}
    {e? : Option LexError} (h : firstError? args afterOperator ts e? = none) : e? = none := by
  induction ts generalizing afterOperator with
  | nil => exact Option.map_eq_none_iff.mp h
  | cons t ts ih => exact ih (Option.or_eq_none_iff.mp h).2

theorem Parsing.Spells.eq_nil {ts : List Token} (h : Spells args [] ts) : ts = [] := by
  cases h
  rfl

/-- The tokens of a text that has no first error are all shifted, and the stack that is left spells
them. -/
theorem Parsing.exists_spells {input : String}
    (h : (Reading.ofText input).firstError? args = none) :
    ∃ s : Stack, parse input args = s.finish args (Cursor.start input).toEnd.position ∧
      (Reading.ofText input).tokens.foldlM (advance args) [] = .ok s ∧
      Spells args s ((Reading.ofText input).tokens.map (·.token)) := by
  obtain ⟨s, hs⟩ := (run_of_firstError? [] (Cursor.start input)).2 h
  have htokens := Reading.tokens_start_eq_ok_iff.mpr ⟨error?_eq_none h, rfl⟩
  have hfold := hs
  rw [run_eq_foldlM htokens, funext fun s => funext (shift_eq_advance args s)] at hfold
  have hspells := spells_of_foldlM .nil hfold
  rw [List.nil_append] at hspells
  refine ⟨s, ?_, hfold, hspells⟩
  rw [parse, hs]

/-- The first error of the tokens, read from left to right, is the error of the parse, whatever else
is wrong. Where there is none, the error of the parse says that there is no token, or that the
argument is missing for which a single name asks; or the text is a filter, or a malformed one. -/
theorem parse_diagnosis (input : String) (args : List Value) :
    (∀ e, (Reading.ofText input).firstError? args = some e → parse input args = .error e) ∧
      ((Reading.ofText input).firstError? args = none →
        ((Reading.ofText input).tokens = [] → parse input args = .error .empty) ∧
        (∀ name span, (Reading.ofText input).tokens = [⟨.identifier name, span⟩] → args = [] →
          parse input args = .error (.argumentOutOfRange 0 span.start 0)) ∧
        ((Reading.ofText input).tokens ≠ [] →
          ¬(args = [] ∧ ∃ name span, (Reading.ofText input).tokens = [⟨.identifier name, span⟩]) →
          (∃ q, parse input args = .ok q) ∨
            ∃ position fault, parse input args = .error (.malformed position fault))) := by
  refine ⟨fun e he => ?_, fun hnone => ?_⟩
  · rw [parse, (run_of_firstError? [] (Cursor.start input)).1 e he]
  obtain ⟨s, hparse, hfold, hspells⟩ := exists_spells hnone
  rw [hparse]
  refine ⟨fun htokens => ?_, fun name span htokens hargs => ?_, fun hne hshorthand => ?_⟩
  · rw [htokens] at hfold
    cases hfold
    rfl
  · rw [htokens] at hfold
    cases hfold
    rw [hargs]
    rfl
  · rcases finish_cases args (Cursor.start input).toEnd.position s with
      hok | hmalformed | rfl | ⟨hargs, name, span, rfl⟩
    · exact .inl hok
    · exact .inr hmalformed
    · exact (hne (List.map_eq_nil_iff.mp hspells.eq_nil)).elim
    · obtain ⟨⟨_, span'⟩, htokens, rfl⟩ := List.map_eq_singleton_iff.mp hspells.eq_singleton
      exact (hshorthand ⟨hargs, name, span', htokens⟩).elim

/-- Neither what is malformed before it nor the open quote behind it hides the wrong operand. -/
example : parse ") a = yes '" [] = .error (.invalidBoolean "yes" 6) := by decide +kernel

end FilterLang
