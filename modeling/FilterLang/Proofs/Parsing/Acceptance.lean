import FilterLang.Proofs.Parsing.Grammar
import FilterLang.Proofs.Parsing.Shift

/-! The parser accepts what the grammar derives, with the same filter.

Along the tokens of a phrase the stack ends with the filter of the phrase on top, whatever lies
below (`Derives.advances`); and at every moment the entries of the stack spell the tokens shifted so
far, each filter among them derived (`spells_of_foldlM`). Main statement: `parse_eq_ok_iff`. -/

namespace FilterLang

/-! ### Stacks on which nothing waits -/

namespace Parsing

namespace Stack

/-- No path on top waits for its next element or its end. -/
def NoPath (s : Stack) : Prop := ∀ elements span s', s ≠ ⟨.path elements, span⟩ :: s'

/-- No operator on top waits for its operand. -/
def NoOperator (s : Stack) : Prop := ∀ c span s', s ≠ ⟨.token (.operator c), span⟩ :: s'

theorem NoPath.nil : NoPath [] := fun _ _ _ => (List.cons_ne_nil _ _).symm

theorem NoOperator.nil : NoOperator [] := fun _ _ _ => (List.cons_ne_nil _ _).symm

/-- Nothing on top waits for a filter. -/
def Idle (s : Stack) : Prop := ∀ q span, s.settle q span = ⟨.qualifier q, span⟩ :: s

theorem operand?_eq_ok_iff {args : List Value} {t : PlacedToken} {v : Value} :
    operand? args t = some (.ok v) ↔ operandValue? args t.token = some v := by
  obtain ⟨t, span⟩ := t
  cases t with
  | constant v' => simp [operand?, operandValue?]
  | parameter index =>
    simp only [operand?, operandValue?, argument]
    cases args[index]? <;> simp
  | identifier word =>
    simp only [operand?, operandValue?]
    cases booleanWord? word <;> simp
  | _ => simp [operand?, operandValue?]

theorem put_of_noOperator (args : List Value) {s : Stack} (h : s.NoOperator) (t : PlacedToken) :
    put args t s = .ok (⟨.token t.token, t.span⟩ :: s) := by
  fun_cases put args t s with
  | case1 c span s' | case2 c span s' | case3 c span s' => exact (h c span s' rfl).elim
  | case4 _ _ => rfl

theorem put_operand {args : List Value} {t : PlacedToken} {v : Value}
    (h : operandValue? args t.token = some v) (c : Comparison) (span : Span) (s : Stack) :
    put args t (⟨.token (.operator c), span⟩ :: s) =
      .ok (settlePredicate ⟨c, v⟩ (span.merge t.span) s) := by
  rw [put, operand?_eq_ok_iff.mpr h]

theorem separate_of_noPath {s : Stack} (h : s.NoPath) (name : String) (left span : Span) :
    separate span (⟨.token (.identifier name), left⟩ :: s) =
      ⟨.path [name], left.merge span⟩ :: s := by
  rw [separate]
  exact fun elements left s' => h elements left s'

end Stack

open Stack

variable {args : List Value}

/-! ### Derivations are accepted -/

/-- Where shifting the tokens of a phrase leads. -/
def Advances (args : List Value) (ts : List PlacedToken) (q : Qualifier) : Phrase → Prop
  | .atom => ∀ s : Stack, s.NoOperator →
    ∃ span, ts.foldlM (advance args) s = .ok (s.settle q span)
  | .term => ∀ s : Stack, s.NoOperator → s.NoPath →
    ∃ span, ts.foldlM (advance args) s = .ok (s.settle q span)
  | .filter => ∀ s : Stack, s.NoOperator → s.NoPath → s.Idle →
    ∃ span, ts.foldlM (advance args) s = .ok (⟨.qualifier q, span⟩ :: s)

theorem advance_identifier {s : Stack} (h : s.NoOperator) (name : String) (span : Span) :
    advance args s ⟨.identifier name, span⟩ = .ok (⟨.token (.identifier name), span⟩ :: s) :=
  put_of_noOperator args h ⟨.identifier name, span⟩

theorem advance_operand {t : PlacedToken} {v : Value} (h : operandValue? args t.token = some v)
    (c : Comparison) (span : Span) (s : Stack) :
    advance args (⟨.token (.operator c), span⟩ :: s) t =
      .ok (settlePredicate ⟨c, v⟩ (span.merge t.span) s) := by
  rw [← put_operand h]
  fun_cases advance args (⟨.token (.operator c), span⟩ :: s) t with
  | case1 ht | case2 ht => rw [ht] at h; cases h
  | case3 => rfl

/-- The first of the places where tokens stand. -/
theorem exists_cons_of_map_token {ts : List PlacedToken} {t : Token} {us : List Token}
    (h : ts.map (·.token) = t :: us) :
    ∃ span ts', ts = ⟨t, span⟩ :: ts' ∧ ts'.map (·.token) = us := by
  obtain ⟨⟨_, span⟩, ts', rfl, rfl, h'⟩ := List.map_eq_cons_iff.mp h
  exact ⟨span, ts', rfl, h'⟩

theorem foldlM_advance_pathTokens (elements : List String) {names : List String} {span : Span}
    {s : Stack} {ts : List PlacedToken}
    (h : ts.map (·.token) = pathTokens names) :
    ∃ span', ts.foldlM (advance args) (⟨.path elements, span⟩ :: s) =
      .ok (⟨.path (elements ++ names), span'⟩ :: s) := by
  induction names generalizing elements span ts with
  | nil =>
    obtain rfl : ts = [] := List.map_eq_nil_iff.mp h
    exact ⟨span, by rw [List.append_nil]; rfl⟩
  | cons name names ih =>
    obtain ⟨at₁, ts₁, rfl, h₁⟩ := exists_cons_of_map_token h
    obtain ⟨at₂, ts₂, rfl, h₂⟩ := exists_cons_of_map_token h₁
    rw [List.append_cons]
    exact ih (elements ++ [name]) h₂

theorem Derives.advances {p : Phrase} {us : List Token} {q : Qualifier} (h : Derives args p us q)
    {ts : List PlacedToken} (hts : ts.map (·.token) = us) : Advances args ts q p := by
  induction h generalizing ts with
  | @comparison name c t v hv =>
    intro s hop
    obtain ⟨at₁, ts₁, rfl, h₁⟩ := exists_cons_of_map_token hts
    obtain ⟨at₂, ts₂, rfl, h₂⟩ := exists_cons_of_map_token h₁
    obtain ⟨t, rfl, rfl⟩ := List.map_eq_singleton_iff.mp h₂
    refine ⟨at₁.merge (at₂.merge t.span), ?_⟩
    rw [List.foldlM_cons, advance_identifier hop]
    change advance args (⟨.token (.operator c), at₂⟩ :: _) t >>= _ = _
    rw [advance_operand hv]
    rfl
  | @group us q _ ih =>
    intro s hop
    obtain ⟨at₁, ts₁, rfl, h₁⟩ := exists_cons_of_map_token hts
    obtain ⟨ts₂, ts₃, rfl, h₂, h₃⟩ := List.map_eq_append_iff.mp h₁
    obtain ⟨at₂, ts₄, rfl, h₄⟩ := exists_cons_of_map_token h₃
    obtain rfl : ts₄ = [] := List.map_eq_nil_iff.mp h₄
    obtain ⟨span, ih⟩ := ih h₂ (⟨.token .openGroup, at₁⟩ :: s) nofun nofun fun _ _ => rfl
    refine ⟨at₁.merge at₂, ?_⟩
    have hopen : advance args s ⟨.openGroup, at₁⟩ = .ok (⟨.token .openGroup, at₁⟩ :: s) :=
      put_of_noOperator args hop ⟨.openGroup, at₁⟩
    rw [List.foldlM_cons, hopen]
    change (ts₂ ++ [_]).foldlM (advance args) _ = _
    rw [List.foldlM_append, ih]
    rfl
  | path elements _ ih =>
    intro s hop hpath
    obtain ⟨ts₁, ts₂, rfl, h₁, h₂⟩ := List.map_eq_append_iff.mp hts
    cases elements with
    | nil =>
      obtain rfl : ts₁ = [] := List.map_eq_nil_iff.mp h₁
      exact ih h₂ s hop
    | cons name elements =>
      obtain ⟨at₁, ts₃, rfl, h₃⟩ := exists_cons_of_map_token h₁
      obtain ⟨at₂, ts₄, rfl, h₄⟩ := exists_cons_of_map_token h₃
      obtain ⟨left, hleft⟩ := foldlM_advance_pathTokens [name] h₄
      obtain ⟨span, ih⟩ := ih h₂ (⟨.path (name :: elements), left⟩ :: s) nofun
      refine ⟨left.merge span, ?_⟩
      rw [List.cons_append, List.foldlM_cons, advance_identifier hop]
      change (ts₄ ++ ts₂).foldlM (advance args) (separate at₂ _) = _
      rw [separate_of_noPath hpath, List.foldlM_append, hleft]
      exact ih
  | term _ ih =>
    intro s hop hpath hidle
    obtain ⟨span, ih⟩ := ih hts s hop hpath
    exact ⟨span, by rw [ih, hidle]⟩
  | @join c _ _ l r _ _ ihl ihr =>
    intro s hop hpath hidle
    obtain ⟨ls, ts, rfl, hls, hts⟩ := List.map_eq_append_iff.mp hts
    obtain ⟨at₁, rs, rfl, hrs⟩ := exists_cons_of_map_token hts
    obtain ⟨left, ihl⟩ := ihl hls s hop hpath hidle
    obtain ⟨right, ihr⟩ :=
      ihr hrs (⟨.token (.connective c), at₁⟩ :: ⟨.qualifier l, left⟩ :: s) nofun nofun
    refine ⟨left.merge right, ?_⟩
    rw [List.foldlM_append, ihl]
    change rs.foldlM (advance args) _ = _
    rw [ihr, settle, hidle]

/-! ### Only derivations are accepted -/

/-- The tokens that the entries of a stack stand for; a path and a filter stand on what does not
take them up. -/
inductive Spells (args : List Value) : Stack → List Token → Prop
  | nil : Spells args [] []
  | token (t : Token) (span : Span) {s : Stack} {ts : List Token} (h : Spells args s ts) :
    Spells args (⟨.token t, span⟩ :: s) (ts ++ [t])
  | predicate (c : Comparison) (span : Span) {t : Token} {v : Value}
    (hv : operandValue? args t = some v) {s : Stack} {ts : List Token} (h : Spells args s ts) :
    Spells args (⟨.predicate ⟨c, v⟩, span⟩ :: s) (ts ++ [.operator c, t])
  | path (name : String) (names : List String) (span : Span) {s : Stack} {ts : List Token}
    (hs : s.NoPath) (h : Spells args s ts) :
    Spells args (⟨.path (name :: names), span⟩ :: s) (ts ++ pathTokens (name :: names))
  | filter {q : Qualifier} {us : List Token} (hq : Derives args .filter us q) (span : Span)
    {s : Stack} {ts : List Token} (hs : s.Idle) (h : Spells args s ts) :
    Spells args (⟨.qualifier q, span⟩ :: s) (ts ++ us)

theorem Spells.derives {q : Qualifier} {span : Span} {ts : List Token}
    (h : Spells args [⟨.qualifier q, span⟩] ts) : Derives args .filter ts q := by
  rcases h with _ | _ | _ | _ | ⟨hq, _, _, h⟩
  rcases h with _ | _
  exact hq

theorem Spells.eq_singleton {t : Token} {span : Span} {ts : List Token}
    (h : Spells args [⟨.token t, span⟩] ts) : ts = [t] := by
  rcases h with _ | ⟨_, _, h⟩
  rcases h with _ | _
  rfl

theorem Spells.settle_term {s : Stack} {ts us : List Token} {q : Qualifier}
    (h : Spells args s ts) (hq : Derives args .term us q) (hs : s.NoPath) (span : Span) :
    Spells args (s.settle q span) (ts ++ us) := by
  fun_cases settle q span s with
  | case1 c at₁ l at₂ s =>
    rcases h with _ | ⟨_, _, h⟩
    rcases h with _ | _ | _ | _ | ⟨hl, _, hidle, h⟩
    rw [hidle, List.append_assoc, List.append_assoc]
    exact .filter (.join c hl hq) _ hidle h
  | case2 elements left s => exact (hs elements left s rfl).elim
  | case3 _ hjoin hpath =>
    refine .filter (.term hq) span ?_ h
    intro r span'
    rw [settle]
    · exact hjoin
    · exact hpath

theorem Spells.settle_atom {s : Stack} {ts us : List Token} {q : Qualifier}
    (h : Spells args s ts) (hq : Derives args .atom us q) (span : Span) :
    Spells args (s.settle q span) (ts ++ us) := by
  by_cases hpath : ∃ elements left s', s = ⟨.path elements, left⟩ :: s'
  · obtain ⟨elements, left, s, rfl⟩ := hpath
    rcases h with _ | _ | _ | ⟨name, names, _, hs, h⟩
    rw [settle, List.append_assoc]
    exact h.settle_term (.path (name :: names) hq) hs _
  · have hs : s.NoPath := fun elements left s' hs => hpath ⟨elements, left, s', hs⟩
    exact h.settle_term (.path [] hq) hs span

theorem Spells.settlePredicate {s : Stack} {ts : List Token} (h : Spells args s ts)
    {t : Token} {v : Value} (hv : operandValue? args t = some v) (c : Comparison) (span : Span) :
    Spells args (s.settlePredicate ⟨c, v⟩ span) (ts ++ [.operator c, t]) := by
  fun_cases Stack.settlePredicate ⟨c, v⟩ span s with
  | case1 name left s =>
    rcases h with _ | ⟨_, _, h⟩
    rw [List.append_assoc]
    exact h.settle_atom (.comparison name c hv) _
  | case2 => exact .predicate c span hv h

theorem Spells.close {s : Stack} {ts : List Token} (h : Spells args s ts) (span : Span) :
    Spells args (s.close span) (ts ++ [.closeGroup]) := by
  fun_cases Stack.close span s with
  | case1 q _ opening s =>
    rcases h with _ | _ | _ | _ | ⟨hq, _, _, h⟩
    rcases h with _ | ⟨_, _, h⟩
    rw [List.append_assoc, List.append_assoc]
    exact h.settle_atom (.group hq) _
  | case2 => exact .token _ span h

theorem Spells.separate {s : Stack} {ts : List Token} (h : Spells args s ts) (span : Span) :
    Spells args (s.separate span) (ts ++ [.separator]) := by
  fun_cases Stack.separate span s with
  | case1 name _ elements left s =>
    rcases h with _ | ⟨_, _, h⟩
    rcases h with _ | _ | _ | ⟨first, names, _, hs, h⟩
    have hts : pathTokens (first :: names) ++ [.identifier name, .separator] =
        pathTokens (first :: (names ++ [name])) := by
      simp [pathTokens]
    rw [List.append_assoc, List.append_assoc, List.singleton_append, hts]
    exact .path first (names ++ [name]) _ hs h
  | case2 name left s hs =>
    rcases h with _ | ⟨_, _, h⟩
    rw [List.append_assoc]
    exact .path name [] _ hs h
  | case3 => exact .token _ span h

theorem Spells.put {s s' : Stack} {ts : List Token} (h : Spells args s ts) {t : PlacedToken}
    (ht : s.put args t = .ok s') : Spells args s' (ts ++ [t.token]) := by
  fun_cases Stack.put args t s with
  | case1 c left s v hv =>
    rw [Stack.put, hv] at ht
    cases ht
    rcases h with _ | ⟨_, _, h⟩
    rw [List.append_assoc]
    exact h.settlePredicate (operand?_eq_ok_iff.mp hv) c _
  | case2 c left s e he =>
    rw [Stack.put, he] at ht
    cases ht
  | case3 c left s hnone =>
    rw [Stack.put, hnone] at ht
    cases ht
    exact .token _ _ h
  | case4 _ hs =>
    rw [put_of_noOperator args hs] at ht
    cases ht
    exact .token _ _ h

theorem Spells.advance {s s' : Stack} {ts : List Token} (h : Spells args s ts) {t : PlacedToken}
    (ht : s.advance args t = .ok s') : Spells args s' (ts ++ [t.token]) := by
  rw [Stack.advance] at ht
  split at ht
  · rename_i hclose
    cases ht
    exact hclose ▸ h.close t.span
  · rename_i hsep
    cases ht
    exact hsep ▸ h.separate t.span
  · exact h.put ht

theorem spells_of_foldlM {ts : List PlacedToken} {s s' : Stack} {us : List Token}
    (h : Spells args s us) (hts : ts.foldlM (advance args) s = .ok s') :
    Spells args s' (us ++ ts.map (·.token)) := by
  induction ts generalizing s us with
  | nil =>
    cases hts
    rwa [List.map_nil, List.append_nil]
  | cons t ts ih =>
    rw [List.foldlM_cons] at hts
    cases ht : s.advance args t with
    | error e => rw [ht] at hts; cases hts
    | ok s₁ =>
      rw [ht] at hts
      rw [List.map_cons, List.append_cons]
      exact ih (h.advance ht) hts

theorem finish_of_one_lt (args : List Value) (position : Nat) {s : Stack} (h : 1 < s.length) :
    s.finish args position = .error (s.leftover position) := by
  rw [finish.eq_def, if_pos h]

theorem finish_eq_ok_iff {position : Nat} {s : Stack} {q : Qualifier} :
    s.finish args position = .ok q ↔
      (∃ span, s = [⟨.qualifier q, span⟩]) ∨
      ∃ name span v, s = [⟨.token (.identifier name), span⟩] ∧ args.head? = some v ∧
        q = .property name ⟨.equals, v⟩ := by
  rcases s with _ | ⟨⟨item, span⟩, _ | ⟨e, s⟩⟩
  · simp [finish]
  · cases item with
    | token t =>
      cases t with
      | identifier name =>
        rcases args with _ | ⟨v, args⟩
        · simp [finish, argument]
        · simp [finish, argument, eq_comm]
      | _ => simp [finish]
    | _ => simp [finish]
  · have hlen : 1 < (⟨item, span⟩ :: e :: s : Stack).length := by
      simp only [List.length_cons]
      omega
    simp [finish_of_one_lt args position hlen]

end Parsing

open Parsing Parsing.Stack

/-! ### Parsing -/

/-- A text whose tokens derive a filter is parsed to it. -/
theorem parse_of_derives {input : String} {args : List Value} {q : Qualifier}
    {ts : List PlacedToken} (hts : (Cursor.start input).tokens = .ok ts)
    (h : Derives args .filter (ts.map (·.token)) q) : parse input args = .ok q := by
  obtain ⟨span, hs⟩ := h.advances rfl [] .nil .nil fun _ _ => rfl
  rw [parse, run_eq_foldlM hts, funext fun s => funext (shift_eq_advance args s), hs]
  rfl

/-- The filters for which tokens stand: that which they derive, or the equality with the first
argument for which a single name stands. -/
inductive Parsing.StandsFor (args : List Value) (ts : List Token) (q : Qualifier) : Prop
  | derived (h : Derives args .filter ts q)
  | shorthand {name : String} {v : Value} (hts : ts = [.identifier name])
    (hv : args.head? = some v) (hq : q = .property name ⟨.equals, v⟩)

/-- A text that is parsed to a filter is a sequence of tokens that stand for it. -/
theorem standsFor_of_parse {input : String} {args : List Value} {q : Qualifier}
    (h : parse input args = .ok q) :
    ∃ ts, (Cursor.start input).tokens = .ok ts ∧ StandsFor args (ts.map (·.token)) q := by
  rw [parse] at h
  cases hts : (Cursor.start input).tokens with
  | error e =>
    cases hs : run args [] (Cursor.start input) with
    | error e' => rw [hs] at h; cases h
    | ok s => exact (run_ne_ok args hts [] s hs).elim
  | ok ts =>
    refine ⟨ts, rfl, ?_⟩
    rw [run_eq_foldlM hts, funext fun s => funext (shift_eq_advance args s)] at h
    cases hs : ts.foldlM (advance args) [] with
    | error e => rw [hs] at h; cases h
    | ok s =>
      rw [hs] at h
      have hspells := spells_of_foldlM .nil hs
      rw [List.nil_append] at hspells
      rcases finish_eq_ok_iff.mp h with ⟨span, rfl⟩ | ⟨name, span, v, rfl, hv, hq⟩
      · exact .derived hspells.derives
      · exact .shorthand hspells.eq_singleton hv hq

/-- A text is parsed to the filter for which its tokens stand. -/
theorem Parsing.StandsFor.parse_eq {input : String} {args : List Value} {q : Qualifier}
    {ts : List PlacedToken} (h : StandsFor args (ts.map (·.token)) q)
    (hts : (Cursor.start input).tokens = .ok ts) : parse input args = .ok q := by
  cases h with
  | derived h => exact parse_of_derives hts h
  | @shorthand name v hname hv hq =>
    obtain ⟨⟨_, span⟩, rfl, rfl⟩ := List.map_eq_singleton_iff.mp hname
    rw [parse, run_eq_foldlM hts, funext fun s => funext (shift_eq_advance args s)]
    exact finish_eq_ok_iff.mpr (.inr ⟨name, span, v, rfl, hv, hq⟩)

theorem parse_iff_standsFor {input : String} {args : List Value} {q : Qualifier}
    {ts : List PlacedToken} (hts : (Cursor.start input).tokens = .ok ts) :
    parse input args = .ok q ↔ StandsFor args (ts.map (·.token)) q := by
  constructor
  · intro h
    obtain ⟨ts', hts', hq⟩ := standsFor_of_parse h
    cases hts.symm.trans hts'
    exact hq
  · exact fun hq => hq.parse_eq hts

/-- Parsing a text gives what its tokens stand for in the grammar, and a single name stands for
equality with the first argument. -/
theorem parse_eq_ok_iff (input : String) (args : List Value) (q : Qualifier) :
    parse input args = .ok q ↔
      ∃ ts, (Cursor.start input).tokens = .ok ts ∧
        (readAll args (ts.map (·.token)) = some q ∨
          ∃ name v, ts.map (·.token) = [.identifier name] ∧ args.head? = some v ∧
            q = .property name ⟨.equals, v⟩) := by
  cases hts : (Cursor.start input).tokens with
  | error e =>
    have hrun := run_ne_ok args hts []
    rw [parse]
    split
    · rename_i s hs
      exact (hrun s hs).elim
    · simp
  | ok ts =>
    have hfold : shift args = advance args := funext fun s => funext (shift_eq_advance args s)
    rw [parse, run_eq_foldlM hts, hfold]
    simp only [Except.ok.injEq, exists_eq_left', readAll_eq_some_iff]
    constructor
    · intro h
      cases hs : ts.foldlM (advance args) [] with
      | error e => rw [hs] at h; cases h
      | ok s =>
        rw [hs] at h
        have hspells := spells_of_foldlM .nil hs
        rw [List.nil_append] at hspells
        rcases finish_eq_ok_iff.mp h with ⟨span, rfl⟩ | ⟨name, span, v, rfl, hv, hq⟩
        · exact .inl hspells.derives
        · exact .inr ⟨name, v, hspells.eq_singleton, hv, hq⟩
    · rintro (h | ⟨name, v, h, hv, rfl⟩)
      · obtain ⟨span, hs⟩ := h.advances rfl [] .nil .nil fun _ _ => rfl
        rw [hs]
        exact finish_eq_ok_iff.mpr (.inl ⟨span, rfl⟩)
      · obtain ⟨⟨_, span⟩, rfl, rfl⟩ := List.map_eq_singleton_iff.mp h
        exact finish_eq_ok_iff.mpr (.inr ⟨name, span, v, rfl, hv, rfl⟩)

end FilterLang
