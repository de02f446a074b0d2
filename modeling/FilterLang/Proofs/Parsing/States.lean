import FilterLang.Proofs.Parsing.Diagnosis

/-! What stays true of the parser from step to step.

Every entry of the stack stands for a block of the shifted tokens, and the blocks follow each other
as the tokens do (`Stack.Covers`). A rule that fits puts one entry in the place of the topmost ones,
with a span from the start of the lowest to the stop of the topmost (`Rule.outcome`), so that it
joins their blocks. Tokens are in order and not empty, so nothing that lies between the two is
outside that span. Main statement: `reachable_blocks_and_positions`. -/

namespace FilterLang

open Parsing

/-! ### Spans -/

/-- The place in the text that an error names, errors of the lexer apart. -/
def ParseError.position? : ParseError → Option Nat
  | lex _ => none
  | empty => none
  | malformed position _ => some position
  | invalidBoolean _ position => some position
  | argumentOutOfRange _ position _ => some position

namespace Span

theorem merge_assoc (a b c : Span) : (a.merge b).merge c = a.merge (b.merge c) := by
  simp only [merge, Nat.min_assoc, Nat.max_assoc]

theorem start_merge (a b : Span) :
    (a.merge b).start = a.start ∨ (a.merge b).start = b.start := min_choice ..

theorem stop_merge (a b : Span) : (a.merge b).stop = a.stop ∨ (a.merge b).stop = b.stop :=
  max_choice ..

/-- Two spans cover what lies between them. -/
theorem merge_merge_of_between {a b c : Span} (hstart : a.start ≤ b.start)
    (hstop : b.stop ≤ c.stop) : a.merge (b.merge c) = a.merge c := by
  simp only [merge, mk.injEq]
  omega

end Span

namespace Parsing

/-- The spans of a token and of those behind it, merged. -/
def blockSpan : PlacedToken → List PlacedToken → Span
  | t, [] => t.span
  | t, u :: us => t.span.merge (blockSpan u us)

theorem blockSpan_append (t : PlacedToken) (us : List PlacedToken) (u : PlacedToken)
    (vs : List PlacedToken) :
    blockSpan t (us ++ u :: vs) = (blockSpan t us).merge (blockSpan u vs) := by
  induction us generalizing t with
  | nil => rfl
  | cons v us ih => rw [List.cons_append, blockSpan, blockSpan, ih, Span.merge_assoc]

variable {place : Span → Nat}

/-- A place that a merged span has from one of the two, it has from one of the tokens. -/
theorem exists_eq_blockSpan
    (hplace : ∀ a b : Span, place (a.merge b) = place a ∨ place (a.merge b) = place b)
    (t : PlacedToken) (us : List PlacedToken) :
    ∃ u ∈ t :: us, place u.span = place (blockSpan t us) := by
  induction us generalizing t with
  | nil => exact ⟨t, List.mem_cons_self, rfl⟩
  | cons u us ih =>
    rcases hplace t.span (blockSpan u us) with h | h
    · exact ⟨t, List.mem_cons_self, h.symm⟩
    · obtain ⟨v, hv, hvplace⟩ := ih u
      exact ⟨v, List.mem_cons_of_mem t hv, hvplace.trans h.symm⟩

theorem start_blockSpan_le (t : PlacedToken) (us : List PlacedToken) :
    (blockSpan t us).start ≤ t.span.start := by
  cases us with
  | nil => exact Nat.le_refl _
  | cons u us => exact Nat.min_le_left ..

theorem le_stop_blockSpan (t : PlacedToken) (us : List PlacedToken) :
    t.span.stop ≤ (blockSpan t us).stop := by
  cases us with
  | nil => exact Nat.le_refl _
  | cons u us => exact Nat.le_max_left ..

/-! ### Stacks that stand for blocks of tokens -/

/-- The tokens fall into blocks, one for each entry and the lowest first, and the span of an entry
is that of its block. -/
inductive Stack.Covers : Stack → List PlacedToken → Prop
  | nil : Covers [] []
  | entry {s : Stack} {ts : List PlacedToken} (h : Covers s ts) (item : Item) (t : PlacedToken)
    (us : List PlacedToken) : Covers (⟨item, blockSpan t us⟩ :: s) (ts ++ t :: us)

namespace Stack.Covers

variable {s : Stack} {ts : List PlacedToken}

theorem exists_eq
    (hplace : ∀ a b : Span, place (a.merge b) = place a ∨ place (a.merge b) = place b)
    (h : Covers s ts) : ∀ e ∈ s, ∃ t ∈ ts, place t.span = place e.span := by
  induction h with
  | nil =>
    intro e he
    cases he
  | entry _ item t us ih =>
    refine List.forall_mem_cons.mpr ⟨?_, fun e he => ?_⟩
    · obtain ⟨u, hu, huplace⟩ := exists_eq_blockSpan hplace t us
      exact ⟨u, List.mem_append_right _ hu, huplace⟩
    · obtain ⟨u, hu, huplace⟩ := ih e he
      exact ⟨u, List.mem_append_left _ hu, huplace⟩

theorem start_lt_stop (h : Covers s ts) (hts : ∀ t ∈ ts, t.span.start < t.span.stop) :
    ∀ e ∈ s, e.span.start < e.span.stop := by
  induction h with
  | nil =>
    intro e he
    cases he
  | entry _ item t us ih =>
    obtain ⟨hts, ht, -⟩ := List.forall_mem_append.mp hts |>.imp_right List.forall_mem_cons.mp
    refine List.forall_mem_cons.mpr ⟨?_, ih hts⟩
    calc (blockSpan t us).start
      _ ≤ t.span.start := start_blockSpan_le t us
      _ < t.span.stop := ht
      _ ≤ (blockSpan t us).stop := le_stop_blockSpan t us

/-- Entries are in the order of their tokens, the topmost being the last one. -/
theorem pairwise (h : Covers s ts)
    (hts : ts.Pairwise fun t u => t.span.stop ≤ u.span.start) :
    s.Pairwise fun above below => below.span.stop ≤ above.span.start := by
  induction h with
  | nil => exact .nil
  | entry h item t us ih =>
    obtain ⟨hts, -, hbetween⟩ := List.pairwise_append.mp hts
    refine .cons (fun below hbelow => ?_) (ih hts)
    obtain ⟨u, hu, hstop⟩ := h.exists_eq Span.stop_merge below hbelow
    obtain ⟨v, hv, hstart⟩ := exists_eq_blockSpan Span.start_merge t us
    rw [← hstop, ← hstart]
    exact hbetween u hu v hv

/-- Two entries in one. -/
theorem join {above below : Entry} (h : Covers (above :: below :: s) ts) (item : Item) :
    Covers (⟨item, below.span.merge above.span⟩ :: s) ts := by
  cases h with
  | entry h upper t us =>
    cases h with
    | entry h lower u vs =>
      rw [← blockSpan_append, List.append_assoc, List.cons_append]
      exact h.entry item u (vs ++ t :: us)

/-- Three entries in one, if the one in the middle does not reach beyond the others. -/
theorem join_join {above between below : Entry}
    (h : Covers (above :: between :: below :: s) ts)
    (hstart : below.span.start ≤ between.span.start) (hstop : between.span.stop ≤ above.span.stop)
    (item : Item) : Covers (⟨item, below.span.merge above.span⟩ :: s) ts := by
  rw [← Span.merge_merge_of_between hstart hstop]
  exact (h.join item).join item

end Stack.Covers

/-! ### Reductions -/

/-- What an entry of a category holds. -/
def Category.Holds : Category → Item → Prop
  | identifier, item => ∃ name, item = .token (.identifier name)
  | operator, item => ∃ c, item = .token (.operator c)
  | connective, item => ∃ c, item = .token (.connective c)
  | constant, item => ∃ v, item = .token (.constant v)
  | parameter, item => ∃ index, item = .token (.parameter index)
  | separator, item => item = .token .separator
  | openGroup, item => item = .token .openGroup
  | closeGroup, item => item = .token .closeGroup
  | predicate, item => ∃ p, item = .predicate p
  | qualifier, item => ∃ q, item = .qualifier q
  | path, item => ∃ elements, item = .path elements

theorem Item.holds_category (item : Item) : item.category.Holds item := by
  cases item with
  | token t =>
    cases t with
    | separator | openGroup | closeGroup => rfl
    | _ => exact ⟨_, rfl⟩
  | _ => exact ⟨_, rfl⟩

namespace Rule

variable {r : Rule} {s : Stack}

/-- Where a rule of two categories fits, there are two entries that hold what they say. -/
theorem exists_two {low high : Category} (hpattern : r.pattern = [low, high])
    (h : r.fits s = true) :
    ∃ above below rest, s = above :: below :: rest ∧
      high.Holds above.item ∧ low.Holds below.item := by
  have h := beq_iff_eq.mp h
  rw [hpattern] at h
  rcases s with _ | ⟨above, _ | ⟨below, rest⟩⟩
  · cases h
  · cases h
  · cases h
    exact ⟨above, below, rest, rfl, above.item.holds_category, below.item.holds_category⟩

theorem exists_three {low middle high : Category} (hpattern : r.pattern = [low, middle, high])
    (h : r.fits s = true) :
    ∃ above between below rest, s = above :: between :: below :: rest ∧
      high.Holds above.item ∧ middle.Holds between.item ∧ low.Holds below.item := by
  have h := beq_iff_eq.mp h
  rw [hpattern] at h
  rcases s with _ | ⟨above, _ | ⟨between, _ | ⟨below, rest⟩⟩⟩
  · cases h
  · cases h
  · cases h
  · cases h
    exact ⟨above, between, below, rest, rfl, above.item.holds_category,
      between.item.holds_category, below.item.holds_category⟩

/-- What a rule makes of the topmost entries: one entry, from the lowest to the topmost of them, or
an error at the topmost. -/
inductive Outcome (args : List Value) : Stack → Except ParseError Stack → Prop
  | two (above below : Entry) (s : Stack) (item : Item) :
    Outcome args (above :: below :: s) (.ok (⟨item, below.span.merge above.span⟩ :: s))
  | three (above between below : Entry) (s : Stack) (item : Item) :
    Outcome args (above :: between :: below :: s)
      (.ok (⟨item, below.span.merge above.span⟩ :: s))
  | outOfRange (above : Entry) (s : Stack) (index : Nat) :
    Outcome args (above :: s) (.error (.argumentOutOfRange index above.span.start args.length))
  | invalidBoolean (above : Entry) (s : Stack) (word : String) :
    Outcome args (above :: s) (.error (.invalidBoolean word above.span.start))

/-- A rule that fits finds all that it takes off. -/
theorem outcome (args : List Value) (h : r.fits s = true) : Outcome args s (r.apply args s) := by
  cases r with
  | group =>
    obtain ⟨⟨_, _⟩, ⟨_, _⟩, ⟨_, _⟩, s, rfl, rfl, ⟨q, rfl⟩, rfl⟩ := exists_three rfl h
    exact .three ..
  | join =>
    obtain ⟨⟨_, _⟩, ⟨_, _⟩, ⟨_, _⟩, s, rfl, ⟨r, rfl⟩, ⟨c, rfl⟩, l, rfl⟩ := exists_three rfl h
    exact .three ..
  | property =>
    obtain ⟨⟨_, _⟩, ⟨_, _⟩, s, rfl, ⟨p, rfl⟩, name, rfl⟩ := exists_two rfl h
    exact .two ..
  | constantPredicate =>
    obtain ⟨⟨_, _⟩, ⟨_, _⟩, s, rfl, ⟨v, rfl⟩, c, rfl⟩ := exists_two rfl h
    exact .two ..
  | argumentPredicate =>
    obtain ⟨⟨_, right⟩, ⟨_, _⟩, s, rfl, ⟨index, rfl⟩, c, rfl⟩ := exists_two rfl h
    rw [apply_argumentPredicate, argument]
    split
    · exact .two ..
    · exact .outOfRange ..
  | booleanPredicate =>
    obtain ⟨⟨_, right⟩, ⟨_, _⟩, s, rfl, ⟨word, rfl⟩, c, rfl⟩ := exists_two rfl h
    rw [apply_booleanPredicate, boolean]
    split
    · exact .two ..
    · exact .invalidBoolean ..
  | pathEnd =>
    obtain ⟨⟨_, _⟩, ⟨_, _⟩, s, rfl, ⟨q, rfl⟩, elements, rfl⟩ := exists_two rfl h
    exact .two ..
  | pathStep =>
    obtain ⟨⟨_, _⟩, ⟨_, _⟩, ⟨_, _⟩, s, rfl, rfl, ⟨name, rfl⟩, elements, rfl⟩ :=
      exists_three rfl h
    exact .three ..
  | pathStart =>
    obtain ⟨⟨_, _⟩, ⟨_, _⟩, s, rfl, rfl, name, rfl⟩ := exists_two rfl h
    exact .two ..

end Rule

namespace Stack

/-- Reductions one after the other, by their number and what they end with: no rule fits, or one
fails. -/
inductive ReducesIn (args : List Value) : Nat → Stack → Except ParseError Stack → Prop
  | finished {s : Stack} (hrule : s.rule? = none) : ReducesIn args 0 s (.ok s)
  | failed {s : Stack} {r : Rule} {e : ParseError} (hrule : s.rule? = some r)
    (happly : r.apply args s = .error e) : ReducesIn args 0 s (.error e)
  | step {n : Nat} {s s' : Stack} {r : Rule} {x : Except ParseError Stack}
    (hrule : s.rule? = some r) (happly : r.apply args s = .ok s') (h : ReducesIn args n s' x) :
    ReducesIn args (n + 1) s x

theorem fits_of_rule? {s : Stack} {r : Rule} (h : s.rule? = some r) : r.fits s = true :=
  List.find?_some (p := fun r : Rule => r.fits s) h

theorem ne_nil_of_apply {args : List Value} {s s' : Stack} {r : Rule}
    (h : r.apply args s = .ok s') : s' ≠ [] := by
  rw [Rule.apply] at h
  cases hs : r.reduced args s with
  | error e => rw [hs] at h; cases h
  | ok p =>
    rw [hs] at h
    cases h
    exact List.cons_ne_nil p.1 p.2

/-- There are fewer reductions than entries. -/
theorem exists_reducesIn (args : List Value) {s : Stack} (h : s ≠ []) :
    ∃ n < s.length, ReducesIn args n s (s.reduce args) := by
  fun_induction Stack.reduce args s with
  | case1 s hrule => exact ⟨0, List.length_pos_iff.mpr h, .finished hrule⟩
  | case2 s r hrule s' happly ih =>
    obtain ⟨n, hn, hreduces⟩ := ih (ne_nil_of_apply happly)
    exact ⟨n + 1, Nat.lt_of_le_of_lt hn (Rule.length_apply_lt happly),
      .step hrule happly hreduces⟩
  | case3 s r hrule e happly => exact ⟨0, List.length_pos_iff.mpr h, .failed hrule happly⟩

end Stack

/-! ### Reachable states -/

/-- The parser between two steps. -/
structure State where
  cursor : Cursor
  /-- The tokens shifted so far. -/
  shifted : List PlacedToken
  stack : Stack

namespace State

/-- A rule is applied if one fits, and otherwise a token is shifted if there is one. -/
inductive Step (args : List Value) : State → State → Prop
  | reduce {c : Cursor} {ts : List PlacedToken} {s s' : Stack} {r : Rule}
    (hrule : s.rule? = some r) (happly : r.apply args s = .ok s') : Step args ⟨c, ts, s⟩ ⟨c, ts, s'⟩
  | shift {c c' : Cursor} {ts : List PlacedToken} {s : Stack} {t : PlacedToken}
    (hrule : s.rule? = none) (hnext : c.next = (.token t, c')) :
    Step args ⟨c, ts, s⟩ ⟨c', ts ++ [t], ⟨.token t.token, t.span⟩ :: s⟩

/-- The states on the way through a text. -/
inductive Reachable (input : String) (args : List Value) : State → Prop
  | start : Reachable input args ⟨Cursor.start input, [], []⟩
  | step {st st' : State} (h : Reachable input args st) (hstep : Step args st st') :
    Reachable input args st'

/-- The stack stands for the tokens shifted so far, and the others are still to be read. -/
structure Invariant (input : String) (st : State) : Prop where
  covers : st.stack.Covers st.shifted
  tokens : st.shifted ++ st.cursor.reading.tokens = (Reading.ofText input).tokens

variable {input : String} {args : List Value}

namespace Invariant

theorem shifted_prefix {st : State} (h : Invariant input st) :
    st.shifted <+: (Reading.ofText input).tokens := ⟨_, h.tokens⟩

theorem start_lt_stop {st : State} (h : Invariant input st) :
    ∀ e ∈ st.stack, e.span.start < e.span.stop :=
  h.covers.start_lt_stop fun t ht =>
    (Reading.tiling_ofText input).tiles.nonempty t (h.shifted_prefix.mem ht)

theorem pairwise {st : State} (h : Invariant input st) :
    st.stack.Pairwise fun above below => below.span.stop ≤ above.span.start :=
  h.covers.pairwise ((Reading.tiling_ofText input).tiles.ordered.sublist h.shifted_prefix.sublist)

/-- Where an entry starts, a token of the text does. -/
theorem exists_token {st : State} {position : Nat} (h : Invariant input st)
    (hposition : ∃ e ∈ st.stack, e.span.start = position) :
    ∃ t ∈ (Reading.ofText input).tokens, t.span.start = position := by
  obtain ⟨e, he, rfl⟩ := hposition
  obtain ⟨t, ht, hstart⟩ := h.covers.exists_eq Span.start_merge e he
  exact ⟨t, h.shifted_prefix.mem ht, hstart⟩

/-- What a rule leaves covers what it found. -/
theorem covers_apply {st : State} {s : Stack} {r : Rule} (h : Invariant input st)
    (hfits : r.fits st.stack = true) (happly : r.apply args st.stack = .ok s) :
    s.Covers st.shifted := by
  obtain ⟨c, ts, stack⟩ := st
  have houtcome := Rule.outcome args hfits
  rw [happly] at houtcome
  cases houtcome with
  | two above below s item => exact h.covers.join item
  | three above between below s item =>
    -- The rule merges the outer spans alone; the order of the tokens puts the middle one in between.
    obtain ⟨habove, hbetween⟩ := List.pairwise_cons.mp h.pairwise
    have hlower : below.span.start ≤ between.span.start :=
      calc below.span.start
        _ ≤ below.span.stop := (h.start_lt_stop below (by simp)).le
        _ ≤ between.span.start := List.rel_of_pairwise_cons hbetween List.mem_cons_self
    have hupper : between.span.stop ≤ above.span.stop :=
      calc between.span.stop
        _ ≤ above.span.start := habove between List.mem_cons_self
        _ ≤ above.span.stop := (h.start_lt_stop above (by simp)).le
    exact h.covers.join_join hlower hupper item

/-- One step. -/
theorem step {st st' : State} (h : Invariant input st) (hstep : Step args st st') :
    Invariant input st' := by
  cases hstep with
  | reduce hrule happly => exact ⟨h.covers_apply (Stack.fits_of_rule? hrule) happly, h.tokens⟩
  | shift hrule hnext =>
    refine ⟨h.covers.entry _ _ [], ?_⟩
    rw [List.append_assoc, ← h.tokens, Cursor.reading_of_next_token hnext]
    rfl

end Invariant

theorem Reachable.invariant {st : State} (h : Reachable input args st) : Invariant input st := by
  induction h with
  | start => exact ⟨.nil, List.nil_append _⟩
  | step _ hstep ih => exact ih.step hstep

/-! ### How a run ends -/

/-- How shifting the tokens of a text ends. -/
inductive Ends (input : String) (args : List Value) : Except ParseError Stack → Prop
  | finished {c c' : Cursor} {ts : List PlacedToken} {s : Stack}
    (h : Reachable input args ⟨c, ts, s⟩) (hrule : s.rule? = none)
    (hnext : c.next = (.finished, c')) : Ends input args (.ok s)
  | lex {st : State} {c' : Cursor} {e : LexError} (h : Reachable input args st)
    (hnext : st.cursor.next = (.fault e, c')) : Ends input args (.error (.lex e))
  | failed {st : State} {r : Rule} {e : ParseError} (h : Reachable input args st)
    (hrule : st.stack.rule? = some r) (happly : r.apply args st.stack = .error e) :
    Ends input args (.error e)

/-- Reductions lead from a reachable state to another, or fail in one. -/
theorem Reachable.reduce {c : Cursor} {ts : List PlacedToken} {s : Stack}
    (h : Reachable input args ⟨c, ts, s⟩) :
    (∃ s', s.reduce args = .ok s' ∧ s'.rule? = none ∧ Reachable input args ⟨c, ts, s'⟩) ∨
      ∃ e, s.reduce args = .error e ∧ Ends input args (.error e) := by
  fun_induction Stack.reduce args s with
  | case1 s hrule => exact .inl ⟨s, rfl, hrule, h⟩
  | case2 s r hrule s' happly ih => exact ih (h.step (.reduce hrule happly))
  | case3 s r hrule e happly => exact .inr ⟨e, rfl, .failed h hrule happly⟩

theorem Reachable.ends_run {c : Cursor} {ts : List PlacedToken} {s : Stack}
    (h : Reachable input args ⟨c, ts, s⟩) (hrule : s.rule? = none) :
    Ends input args (s.run args c) := by
  fun_induction Stack.run args s c generalizing ts with
  | case1 s c c' hnext => exact .finished h hrule hnext
  | case2 s c e c' hnext => exact .lex h hnext
  -- A token is shifted by one step, and the reductions behind it are steps as well.
  | case3 s c t c' hnext s' hshift ih =>
    have h := h.step (.shift hrule hnext)
    obtain ⟨s₁, hs₁, hrule, h⟩ | ⟨e, he, -⟩ := h.reduce
    · cases hs₁.symm.trans hshift
      exact ih h hrule
    · cases he.symm.trans hshift
  | case4 s c t c' hnext e hshift =>
    have h := h.step (.shift hrule hnext)
    obtain ⟨s₁, hs₁, -⟩ | ⟨e', he', hends⟩ := h.reduce
    · cases hs₁.symm.trans hshift
    · cases he'.symm.trans hshift
      exact hends

/-- Shifting the tokens of a text leads through reachable states alone. -/
theorem ends_run (input : String) (args : List Value) :
    Ends input args (Stack.run args [] (Cursor.start input)) :=
  Reachable.start.ends_run (by rw [Stack.rule?_eq]; rfl)

end State

/-- The place that the error of a rule names is that of an entry. -/
theorem Rule.exists_of_apply_eq_error {args : List Value} {r : Rule} {s : Stack} {e : ParseError}
    (hfits : r.fits s = true) (h : r.apply args s = .error e) :
    ((∃ index position, e = .argumentOutOfRange index position args.length) ∨
      ∃ word position, e = .invalidBoolean word position) ∧
    ∀ position ∈ e.position?, ∃ entry ∈ s, entry.span.start = position := by
  have houtcome := Rule.outcome args hfits
  rw [h] at houtcome
  cases houtcome with
  | outOfRange above s index =>
    refine ⟨.inl ⟨index, _, rfl⟩, ?_⟩
    rintro _ ⟨⟩
    exact ⟨above, List.mem_cons_self, rfl⟩
  | invalidBoolean above s word =>
    refine ⟨.inr ⟨word, _, rfl⟩, ?_⟩
    rintro _ ⟨⟩
    exact ⟨above, List.mem_cons_self, rfl⟩

namespace Stack

/-- A stack that is no filter is refused for one of its entries. -/
theorem of_finish_eq_error (args : List Value) (position : Nat) (s : Stack) :
    ∀ e, s.finish args position = .error e →
      (∀ place ∈ e.position?, ∃ entry ∈ s, entry.span.start = place) ∧
        ∀ place, e ≠ .malformed place .incomplete := by
  fun_cases finish args position s with
  | case1 s hlength =>
    obtain ⟨entry, hentry, fault, hleftover, hfault⟩ := exists_mem_leftover position hlength
    rintro _ ⟨⟩
    rw [hleftover]
    refine ⟨?_, fun _ h => hfault ?_⟩
    · rintro _ ⟨⟩
      exact ⟨entry, hentry, rfl⟩
    · injection h
  | case2 =>
    rintro _ ⟨⟩
    exact ⟨by rintro _ ⟨⟩, by rintro _ ⟨⟩⟩
  | case3 | case4 => rintro _ ⟨⟩
  | case5 name span tail e he =>
    rintro _ ⟨⟩
    rw [argument] at he
    split at he
    · cases he
    · cases he
      refine ⟨?_, by rintro _ ⟨⟩⟩
      rintro _ ⟨⟩
      exact ⟨_, List.mem_cons_self, rfl⟩
  | case6 e tail =>
    rintro _ ⟨⟩
    refine ⟨?_, by rintro _ ⟨⟩⟩
    rintro _ ⟨⟩
    exact ⟨e, List.mem_cons_self, rfl⟩

end Stack

end Parsing

/-- On the way through a text every entry of the stack stands for a block of the tokens shifted so
far, in their order; a rule that fits fails for the value that it looks up alone, and reductions
come to an end. So an error of the parse names no place but the start of a token, and no text is
refused for being incomplete. -/
theorem reachable_blocks_and_positions (input : String) (args : List Value) :
    (∀ st, State.Reachable input args st →
      (∀ (r : Rule) (e : ParseError), r.fits st.stack = true → r.apply args st.stack = .error e →
        (∃ index position, e = .argumentOutOfRange index position args.length) ∨
          ∃ word position, e = .invalidBoolean word position) ∧
      (∀ t : PlacedToken, ∃ n ≤ st.stack.length,
        Stack.ReducesIn args n (⟨.token t.token, t.span⟩ :: st.stack) (st.stack.shift args t)) ∧
      st.shifted <+: (Reading.ofText input).tokens ∧ st.stack.Covers st.shifted ∧
      (∀ e ∈ st.stack, e.span.start < e.span.stop) ∧
      st.stack.Pairwise fun above below => below.span.stop ≤ above.span.start) ∧
    State.Ends input args (Stack.run args [] (Cursor.start input)) ∧
    ∀ e, parse input args = .error e →
      (∀ position ∈ e.position?, ∃ t ∈ (Reading.ofText input).tokens, t.span.start = position) ∧
        ∀ position, e ≠ .malformed position .incomplete := by
  have hends := State.ends_run input args
  refine ⟨fun st h => ?_, hends, fun e he => ?_⟩
  · have hinvariant := h.invariant
    refine ⟨fun r e hfits happly => (Rule.exists_of_apply_eq_error hfits happly).1, fun t => ?_,
      hinvariant.shifted_prefix, hinvariant.covers, hinvariant.start_lt_stop, hinvariant.pairwise⟩
    obtain ⟨n, hn, hreduces⟩ :=
      Stack.exists_reducesIn args (List.cons_ne_nil ⟨.token t.token, t.span⟩ st.stack)
    exact ⟨n, Nat.lt_succ_iff.mp hn, hreduces⟩
  · rw [parse] at he
    cases hrun : Stack.run args [] (Cursor.start input) with
    | ok s =>
      rw [hrun] at he hends
      cases hends with
      | finished h =>
        obtain ⟨hposition, hfault⟩ := Stack.of_finish_eq_error args _ s e he
        exact ⟨fun position hp => h.invariant.exists_token (hposition position hp), hfault⟩
    | error e' =>
      rw [hrun] at he hends
      cases he
      cases hends with
      | lex => exact ⟨by rintro _ ⟨⟩, by rintro _ ⟨⟩⟩
      | failed h hrule happly =>
        obtain ⟨hcause, hposition⟩ :=
          Rule.exists_of_apply_eq_error (Stack.fits_of_rule? hrule) happly
        refine ⟨fun position hp => h.invariant.exists_token (hposition position hp), ?_⟩
        obtain ⟨_, _, rfl⟩ | ⟨_, _, rfl⟩ := hcause
        · rintro _ ⟨⟩
        · rintro _ ⟨⟩

theorem reachable_blocks_and_positions_leftover :
    let input := "( a = 1 ) b"
    let s : Stack :=
      [⟨.token (.identifier "b"), ⟨10, 11⟩⟩, ⟨.qualifier (.property "a" ⟨.equals, .int 1⟩), ⟨0, 9⟩⟩]
    (∃ c ts, State.Reachable input [] ⟨c, ts, s⟩ ∧ s.Covers ts) ∧
      parse input [] = .error (.malformed 10 (.unexpected .identifier)) ∧
      ∃ t ∈ (Reading.ofText input).tokens, t.span.start = 10 := by
  intro input s
  have hts : (Cursor.start input).tokens = .ok
      [⟨.openGroup, ⟨0, 1⟩⟩, ⟨.identifier "a", ⟨2, 3⟩⟩, ⟨.operator .equals, ⟨4, 5⟩⟩,
        ⟨.constant (.int 1), ⟨6, 7⟩⟩, ⟨.closeGroup, ⟨8, 9⟩⟩, ⟨.identifier "b", ⟨10, 11⟩⟩] := by
    decide +kernel
  have hrun : Stack.run [] [] (Cursor.start input) = .ok s := by
    rw [Stack.run_eq_foldlM hts, funext fun s => funext (Stack.shift_eq_advance [] s)]
    rfl
  have herror : parse input [] = .error (.malformed 10 (.unexpected .identifier)) := by
    decide +kernel
  obtain ⟨hstates, hends, hpositions⟩ := reachable_blocks_and_positions input []
  rw [hrun] at hends
  cases hends with
  | finished h => exact ⟨⟨_, _, h, (hstates _ h).2.2.2.1⟩, herror, (hpositions _ herror).1 10 rfl⟩

end FilterLang
