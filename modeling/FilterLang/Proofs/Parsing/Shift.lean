import FilterLang.Parsing.Parser

/-! What one shift does to the stack.

The reductions after a shift all take up the entry on top, so that a shift has a closed form:
`Stack.advance` puts the token, or what it completes, on the stack without looking for rules. Main
statements: `Stack.shift_eq_advance`, and `Stack.run_eq_foldlM`, by which parsing shifts the tokens
that the lexer reads one after the other. -/

namespace FilterLang.Parsing

/-! ### Reductions -/

theorem Rule.apply_argumentPredicate (args : List Value) (index : Nat) (right : Span)
    (c : Comparison) (left : Span) (s : Stack) :
    Rule.apply args .argumentPredicate
        (⟨.token (.parameter index), right⟩ :: ⟨.token (.operator c), left⟩ :: s) =
      (argument args index right.start).map fun v =>
        ⟨.predicate ⟨c, v⟩, left.merge right⟩ :: s := by
  change Except.map _ (((argument args index right.start).bind _).bind _) = _
  cases argument args index right.start <;> rfl

theorem Rule.apply_booleanPredicate (args : List Value) (word : String) (right : Span)
    (c : Comparison) (left : Span) (s : Stack) :
    Rule.apply args .booleanPredicate
        (⟨.token (.identifier word), right⟩ :: ⟨.token (.operator c), left⟩ :: s) =
      (boolean word right.start).map fun b =>
        ⟨.predicate ⟨c, .bool b⟩, left.merge right⟩ :: s := by
  change Except.map _ (((boolean word right.start).bind _).bind _) = _
  cases boolean word right.start <;> rfl

/-- The rule that the categories of the topmost entries call for. -/
def Rule.ofCategories? : List Category → Option Rule
  | .closeGroup :: .qualifier :: .openGroup :: _ => some .group
  | .qualifier :: .connective :: .qualifier :: _ => some .join
  | .predicate :: .identifier :: _ => some .property
  | .constant :: .operator :: _ => some .constantPredicate
  | .parameter :: .operator :: _ => some .argumentPredicate
  | .identifier :: .operator :: _ => some .booleanPredicate
  | .qualifier :: .path :: _ => some .pathEnd
  | .separator :: .identifier :: .path :: _ => some .pathStep
  | .separator :: .identifier :: _ => some .pathStart
  | _ => none

namespace Stack

theorem rule?_eq (s : Stack) : s.rule? = Rule.ofCategories? (s.map Entry.category) := by
  simp only [rule?, Rule.fits, List.map_take]
  generalize s.map Entry.category = cs
  rcases cs with _ | ⟨a, _ | ⟨b, _ | ⟨c, cs⟩⟩⟩
  · rfl
  · cases a <;> rfl
  · cases a <;> cases b <;> rfl
  · cases a <;> cases b <;> (try rfl) <;> cases c <;> rfl

theorem reduce_of_rule?_eq_none {args : List Value} {s : Stack} (h : s.rule? = none) :
    s.reduce args = .ok s := by
  rw [reduce]
  split
  · rfl
  · rename_i hrule
    cases h.symm.trans hrule

theorem reduce_of_apply_eq_ok {args : List Value} {s s' : Stack} {r : Rule} (h : s.rule? = some r)
    (h' : r.apply args s = .ok s') : s.reduce args = s'.reduce args := by
  rw [reduce]
  split
  · rename_i hnone
    cases h.symm.trans hnone
  · rename_i hrule
    cases h.symm.trans hrule
    split
    · rename_i happly
      cases h'.symm.trans happly
      rfl
    · rename_i happly
      cases h'.symm.trans happly

theorem reduce_of_apply_eq_error {args : List Value} {s : Stack} {r : Rule} {e : ParseError}
    (h : s.rule? = some r) (h' : r.apply args s = .error e) : s.reduce args = .error e := by
  rw [reduce]
  split
  · rename_i hnone
    cases h.symm.trans hnone
  · rename_i hrule
    cases h.symm.trans hrule
    split
    · rename_i happly
      cases h'.symm.trans happly
    · rename_i happly
      cases h'.symm.trans happly
      rfl

/-- A stack with a complete filter on top: paths and conjunctions that wait for it take it up. -/
def settle (q : Qualifier) (span : Span) : Stack → Stack
  | ⟨.token (.connective c), _⟩ :: ⟨.qualifier l, left⟩ :: s =>
    settle (.join c l q) (left.merge span) s
  | ⟨.path elements, left⟩ :: s => settle (.path elements q) (left.merge span) s
  | s => ⟨.qualifier q, span⟩ :: s

/-- A stack with a complete predicate on top: a name that waits for it takes it up. -/
def settlePredicate (p : Predicate) (span : Span) : Stack → Stack
  | ⟨.token (.identifier name), left⟩ :: s => settle (.property name p) (left.merge span) s
  | s => ⟨.predicate p, span⟩ :: s

theorem reduce_qualifier (args : List Value) (q : Qualifier) (span : Span) (s : Stack) :
    reduce args (⟨.qualifier q, span⟩ :: s) = .ok (settle q span s) := by
  fun_induction settle q span s with
  | case1 q span c _ l left s ih =>
    rw [← ih]
    exact reduce_of_apply_eq_ok (r := .join) (by rw [rule?_eq]; rfl) rfl
  | case2 q span elements left s ih =>
    rw [← ih]
    exact reduce_of_apply_eq_ok (r := .pathEnd) (by rw [rule?_eq]; rfl) rfl
  | case3 q span s hjoin hpath =>
    apply reduce_of_rule?_eq_none
    rw [rule?_eq]
    rcases s with _ | ⟨⟨item, _⟩, s⟩
    · rfl
    · cases item with
      | path elements => exact (hpath _ _ _ rfl).elim
      | token t =>
        cases t with
        | connective c =>
          rcases s with _ | ⟨⟨item', _⟩, s⟩
          · rfl
          · cases item' with
            | qualifier l => exact (hjoin _ _ _ _ _ rfl).elim
            | token t' => cases t' <;> rfl
            | _ => rfl
        | _ => rfl
      | _ => rfl

theorem reduce_predicate (args : List Value) (p : Predicate) (span : Span) (s : Stack) :
    reduce args (⟨.predicate p, span⟩ :: s) = .ok (settlePredicate p span s) := by
  fun_cases settlePredicate p span s with
  | case1 name left s =>
    rw [← reduce_qualifier]
    exact reduce_of_apply_eq_ok (r := .property) (by rw [rule?_eq]; rfl) rfl
  | case2 _ hname =>
    apply reduce_of_rule?_eq_none
    rw [rule?_eq]
    rcases s with _ | ⟨⟨item, _⟩, s⟩
    · rfl
    · cases item with
      | token t =>
        cases t with
        | identifier name => exact (hname _ _ _ rfl).elim
        | _ => rfl
      | _ => rfl

theorem reduce_path (args : List Value) (elements : List String) (span : Span) (s : Stack) :
    reduce args (⟨.path elements, span⟩ :: s) = .ok (⟨.path elements, span⟩ :: s) :=
  reduce_of_rule?_eq_none (by rw [rule?_eq]; rfl)

/-! ### Shifts -/

/-- A stack with a closing parenthesis on top: it takes up a filter in parentheses. -/
def close (span : Span) : Stack → Stack
  | ⟨.qualifier q, _⟩ :: ⟨.token .openGroup, opening⟩ :: s => settle q (opening.merge span) s
  | s => ⟨.token .closeGroup, span⟩ :: s

/-- A stack with a separator on top: it makes a name a path or the last element of one. -/
def separate (span : Span) : Stack → Stack
  | ⟨.token (.identifier name), _⟩ :: ⟨.path elements, left⟩ :: s =>
    ⟨.path (elements ++ [name]), left.merge span⟩ :: s
  | ⟨.token (.identifier name), left⟩ :: s => ⟨.path [name], left.merge span⟩ :: s
  | s => ⟨.token .separator, span⟩ :: s

/-- The value that a token has after an operator; none where it does not stand for a value. -/
def operand? (args : List Value) (t : PlacedToken) : Option (Except ParseError Value) :=
  match t.token with
  | .constant v => some (.ok v)
  | .parameter index => some (argument args index t.span.start)
  | .identifier word =>
    some (match booleanWord? word with
      | some b => .ok (.bool b)
      | none => .error (.invalidBoolean word t.span.start))
  | _ => none

/-- A stack with any other token on top: an operator takes up its operand. -/
def put (args : List Value) (t : PlacedToken) : Stack → Except ParseError Stack
  | ⟨.token (.operator c), left⟩ :: s =>
    match operand? args t with
    | some (.ok v) => .ok (settlePredicate ⟨c, v⟩ (left.merge t.span) s)
    | some (.error e) => .error e
    | none => .ok (⟨.token t.token, t.span⟩ :: ⟨.token (.operator c), left⟩ :: s)
  | s => .ok (⟨.token t.token, t.span⟩ :: s)

/-- A stack with one more token, reduced. -/
def advance (args : List Value) (s : Stack) (t : PlacedToken) : Except ParseError Stack :=
  match t.token with
  | .closeGroup => .ok (s.close t.span)
  | .separator => .ok (s.separate t.span)
  | _ => s.put args t

/-- A token that completes nothing stays on top. -/
private theorem shift_of_ofCategories? {args : List Value} {s : Stack} {t : PlacedToken}
    (h : Rule.ofCategories? ((Item.token t.token).category :: s.map Entry.category) = none) :
    shift args s t = .ok (⟨.token t.token, t.span⟩ :: s) :=
  reduce_of_rule?_eq_none (by rw [rule?_eq]; exact h)

private theorem shift_closeGroup (args : List Value) (s : Stack) (span : Span) :
    shift args s ⟨.closeGroup, span⟩ = .ok (s.close span) := by
  fun_cases close span s with
  | case1 q _ opening s =>
    rw [← reduce_qualifier args]
    exact reduce_of_apply_eq_ok (r := .group) (by rw [rule?_eq]; rfl) rfl
  | case2 _ h =>
    apply shift_of_ofCategories?
    rcases s with _ | ⟨⟨item, _⟩, _ | ⟨⟨item', _⟩, s⟩⟩
    · rfl
    · cases item with
      | token t => cases t <;> rfl
      | _ => rfl
    · cases item with
      | qualifier q =>
        cases item' with
        | token t =>
          cases t with
          | openGroup => exact (h _ _ _ _ rfl).elim
          | _ => rfl
        | _ => rfl
      | token t => cases t <;> rfl
      | _ => rfl

private theorem shift_separator (args : List Value) (s : Stack) (span : Span) :
    shift args s ⟨.separator, span⟩ = .ok (s.separate span) := by
  fun_cases separate span s with
  | case1 name _ elements left s =>
    rw [← reduce_path args]
    exact reduce_of_apply_eq_ok (r := .pathStep) (by rw [rule?_eq]; rfl) rfl
  | case2 name left s h =>
    rw [← reduce_path args]
    refine reduce_of_apply_eq_ok (r := .pathStart) ?_ rfl
    rw [rule?_eq]
    rcases s with _ | ⟨⟨item, _⟩, s⟩
    · rfl
    · cases item with
      | path elements => exact (h _ _ _ rfl).elim
      | token t => cases t <;> rfl
      | _ => rfl
  | case3 _ _ h =>
    apply shift_of_ofCategories?
    rcases s with _ | ⟨⟨item, _⟩, s⟩
    · rfl
    · cases item with
      | token t =>
        cases t with
        | identifier name => exact (h _ _ _ rfl).elim
        | _ => rfl
      | _ => rfl

private theorem shift_operand (args : List Value) (s : Stack) (t : PlacedToken)
    (hclose : t.token ≠ .closeGroup) (hsep : t.token ≠ .separator) :
    shift args s t = s.put args t := by
  obtain ⟨t, span⟩ := t
  fun_cases put args ⟨t, span⟩ s with
  | case1 c left s v hv =>
    rw [← reduce_predicate args]
    cases t with
    | constant v' =>
      cases hv
      exact reduce_of_apply_eq_ok (r := .constantPredicate) (by rw [rule?_eq]; rfl) rfl
    | parameter index =>
      have hv : argument args index span.start = .ok v := Option.some.inj hv
      exact reduce_of_apply_eq_ok (r := .argumentPredicate) (by rw [rule?_eq]; rfl)
        (by rw [Rule.apply_argumentPredicate, hv]; rfl)
    | identifier word =>
      cases hb : booleanWord? word with
      | none => simp [operand?, hb] at hv
      | some b =>
        simp [operand?, hb] at hv
        subst hv
        exact reduce_of_apply_eq_ok (r := .booleanPredicate) (by rw [rule?_eq]; rfl)
          (by rw [Rule.apply_booleanPredicate, boolean, hb]; rfl)
    | _ => cases hv
  | case2 c left s e he =>
    cases t with
    | constant v' => cases he
    | parameter index =>
      have he : argument args index span.start = .error e := Option.some.inj he
      exact reduce_of_apply_eq_error (r := .argumentPredicate) (by rw [rule?_eq]; rfl)
        (by rw [Rule.apply_argumentPredicate, he]; rfl)
    | identifier word =>
      cases hb : booleanWord? word with
      | none =>
        simp [operand?, hb] at he
        subst he
        exact reduce_of_apply_eq_error (r := .booleanPredicate) (by rw [rule?_eq]; rfl)
          (by rw [Rule.apply_booleanPredicate, boolean, hb]; rfl)
      | some b => simp [operand?, hb] at he
    | _ => cases he
  | case3 c left s hnone =>
    apply shift_of_ofCategories?
    cases t <;> first | rfl | cases hnone
  | case4 _ h =>
    apply shift_of_ofCategories?
    rcases s with _ | ⟨⟨item, _⟩, s⟩
    · cases t <;> rfl
    · cases item with
      | token u =>
        cases u with
        | operator c => exact (h _ _ _ rfl).elim
        | _ => cases t <;> first | rfl | contradiction
      | _ => cases t <;> first | rfl | contradiction

/-- The closed form of a shift. -/
theorem shift_eq_advance (args : List Value) (s : Stack) (t : PlacedToken) :
    shift args s t = advance args s t := by
  obtain ⟨t, span⟩ := t
  cases t with
  | closeGroup => exact shift_closeGroup args s span
  | separator => exact shift_separator args s span
  | _ => exact shift_operand args s _ nofun nofun

/-! ### Runs -/

theorem run_of_next_finished {args : List Value} {c c' : Cursor} (h : c.next = (.finished, c'))
    (s : Stack) : run args s c = .ok s := by
  rw [run]
  split <;> simp_all

theorem run_of_next_fault {args : List Value} {c c' : Cursor} {e : LexError}
    (h : c.next = (.fault e, c')) (s : Stack) : run args s c = .error (.lex e) := by
  rw [run]
  split <;> simp_all

theorem run_of_next_token {args : List Value} {c c' : Cursor} {t : PlacedToken}
    (h : c.next = (.token t, c')) (s : Stack) :
    run args s c = (s.shift args t).bind fun s' => run args s' c' := by
  rw [run]
  split
  · simp_all
  · simp_all
  · rename_i t₀ c₀ h₀
    rw [h] at h₀
    cases h₀
    cases s.shift args t <;> rfl

/-- Shifting from a place in a text is shifting its tokens in turn. -/
theorem run_eq_foldlM {args : List Value} {c : Cursor} {ts : List PlacedToken}
    (h : c.tokens = .ok ts) (s : Stack) : run args s c = ts.foldlM (shift args) s := by
  fun_induction Cursor.tokens c generalizing ts s with
  | case1 c c' hn => cases h; exact run_of_next_finished hn s
  | case2 c e c' hn => cases h
  | case3 c t c' hn ih =>
    cases hts : c'.tokens with
    | error e => rw [hts] at h; cases h
    | ok ts' =>
      rw [hts] at h; cases h
      rw [run_of_next_token hn, List.foldlM_cons]
      cases s.shift args t with
      | error e => rfl
      | ok s' => exact ih hts s'

/-- A text that is no sequence of tokens is no filter. -/
theorem run_ne_ok (args : List Value) {c : Cursor} {e : LexError}
    (h : c.tokens = .error e) (s s' : Stack) : run args s c ≠ .ok s' := by
  fun_induction Cursor.tokens c generalizing s with
  | case1 c c' hn => cases h
  | case2 c e c' hn => rw [run_of_next_fault hn]; nofun
  | case3 c t c' hn ih =>
    rw [run_of_next_token hn]
    cases s.shift args t with
    | error e => nofun
    | ok s₁ =>
      cases hts : c'.tokens with
      | error e => rw [hts] at h; cases h; exact ih hts s₁
      | ok ts' => rw [hts] at h; cases h

end Stack

end FilterLang.Parsing
