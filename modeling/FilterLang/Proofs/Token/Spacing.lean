import FilterLang.Proofs.Parsing.Acceptance
import FilterLang.Proofs.Token.Tiling

/-! Blanks between lexemes.

Blanks continue no lexeme (`not_continuesWord_of_isBlank`), so lexemes end in front of them as they
end in front of each other, and a text is read alike with other gaps between its lexemes
(`lexes_spaced`). A gap may be closed only where the lexemes touch in the text itself. Main
statement: `tokens_respaced`. -/

namespace FilterLang

open Text Token Parsing

/-- The part of a text that a span covers. -/
def Span.text (s : Span) (input : String) : String :=
  String.Pos.Raw.extract input ⟨s.start⟩ ⟨s.stop⟩

/-- The lexemes of a text, each with a gap behind it. -/
def spaced (input : String) (ts : List PlacedToken) (gaps : List String) : String :=
  String.join (List.zipWith (fun t gap => t.span.text input ++ gap) ts gaps)

/-- The lexemes of a text, with gaps before, between and behind them. -/
def respaced (input first : String) (ts : List PlacedToken) (gaps : List String) : String :=
  first ++ spaced input ts gaps

/-- A text of blanks alone. -/
def isGap (gap : String) : Bool := gap.toList.all isBlank

/-- Gaps behind tokens: one between two tokens is empty only where these touch. -/
def KeepsApart (ts : List PlacedToken) (gaps : List String) : Prop :=
  ∀ p ∈ gaps.zip (ts.zip ts.tail), p.1 = "" → p.2.1.span.stop = p.2.2.span.start

instance (ts : List PlacedToken) (gaps : List String) : Decidable (KeepsApart ts gaps) :=
  inferInstanceAs (Decidable (∀ p ∈ gaps.zip (ts.zip ts.tail), _ → _))

section Characters

private theorem numeralRanges_blankCodes : ∀ n ∈ blankCodes,
    numeralRanges.any (fun (first, last) => first ≤ n && n ≤ last) = false := by
  decide +kernel

theorem isNumeral_of_isBlank {c : Char} (h : isBlank c = true) : isNumeral c = false := by
  rw [isNumeral]
  split
  · refine Bool.eq_false_iff.mpr fun hdigit => ?_
    exact Bool.false_ne_true ((isDigit_spec hdigit).1.symm.trans h)
  · exact numeralRanges_blankCodes _ (toNat_mem_blankCodes h)

/-- A blank continues no lexeme. -/
theorem not_continuesWord_of_isBlank {c : Char} (h : isBlank c = true) :
    continuesWord c = false ∧ c ≠ '=' := by
  have hstart : startsWord c = false :=
    Bool.eq_false_iff.mpr fun hc => Bool.false_ne_true ((startsWord_spec hc).1.symm.trans h)
  obtain ⟨hletter, hline⟩ := Bool.or_eq_false_iff.mp hstart
  refine ⟨?_, ?_⟩
  · rw [continuesWord, hletter, isNumeral_of_isBlank h, hline]
    rfl
  · rintro rfl
    exact absurd h (by decide)

end Characters

theorem EndsAs.blank {b : Char} (h : isBlank b = true) (rest tail : List Char) :
    EndsAs rest (b :: tail) := by
  rintro _ ⟨⟩
  exact .inr (not_continuesWord_of_isBlank h)

theorem EndsAs.nil (rest : List Char) : EndsAs rest [] := nofun

theorem EndsAs.append {lexeme : List Char} (h : lexeme ≠ []) (rest rest' : List Char) :
    EndsAs (lexeme ++ rest) (lexeme ++ rest') := by
  obtain ⟨c, tail, rfl⟩ := List.exists_cons_of_ne_nil h
  rintro _ ⟨⟩
  exact .inl rfl

theorem toList_spaced_cons (input : String) (t : PlacedToken) (ts : List PlacedToken) (gap : String)
    (gaps : List String) :
    (spaced input (t :: ts) (gap :: gaps)).toList =
      (t.span.text input).toList ++ (gap.toList ++ (spaced input ts gaps).toList) := by
  simp [spaced]

theorem toList_spaced_nil (input : String) (gaps : List String) :
    (spaced input [] gaps).toList = [] := by
  rw [spaced, List.zipWith_nil_left]
  rfl

theorem KeepsApart.tail {t : PlacedToken} {ts : List PlacedToken} {gap : String}
    {gaps : List String} (h : KeepsApart (t :: ts) (gap :: gaps)) : KeepsApart ts gaps := by
  cases ts with
  | nil => exact fun p hp => absurd hp (by simp)
  | cons u ts => exact fun p hp => h p (List.mem_cons_of_mem _ hp)

theorem KeepsApart.touch {t u : PlacedToken} {ts : List PlacedToken} {gaps : List String}
    (h : KeepsApart (t :: ts) ("" :: gaps)) (hu : ts.head? = some u) :
    t.span.stop = u.span.start := by
  obtain ⟨ts, rfl⟩ := List.head?_eq_some_iff.mp hu
  exact h ("", t, u) List.mem_cons_self rfl

theorem Lexes.gap {gap : String} (hgap : isGap gap = true) {cs : List Char} {ts : List Token}
    (h : Lexes cs ts) : Lexes (gap.toList ++ cs) ts := .blanks (List.all_eq_true.mp hgap) h

theorem Cursor.start_lt_stop_of_next {c c' : Cursor} {t : PlacedToken}
    (h : c.next = (.token t, c')) : t.span.start < t.span.stop :=
  c.tiling_reading.start_lt_stop t (by rw [reading_of_next_token h]; exact List.mem_cons_self)

theorem StandsAt.behind {position place : Nat} {cs front rest : List Char}
    (h : StandsAt position cs place (front ++ rest)) :
    StandsAt position cs (place + byteLength front) rest := by
  obtain ⟨before, rfl, rfl⟩ := h
  exact ⟨before ++ front, (List.append_assoc ..).symm, by rw [byteLength_append, Nat.add_assoc]⟩

/-- A span covers the lexeme that stands where it starts. -/
theorem StandsAt.text_eq {input : String} {lexeme rest : List Char} {s : Span}
    (h : StandsAt 0 input.toList s.start (lexeme ++ rest))
    (hstop : s.stop = s.start + byteLength lexeme) : s.text input = String.ofList lexeme := by
  obtain ⟨before, hinput, hstart⟩ := h
  rw [Nat.zero_add] at hstart
  rw [Span.text, hstop, hstart, byteLength_eq_utf8Len, byteLength_eq_utf8Len,
    ← String.ofList_toList (s := input), hinput, ← List.append_assoc]
  exact String.extract_of_valid before lexeme rest

/-- A text is read alike with other gaps, and starts alike if the first token stands at its
front. -/
theorem lexes_spaced {input : String} {c : Cursor}
    (hc : StandsAt 0 input.toList c.position c.rest) {ts : List PlacedToken}
    (hts : c.tokens = .ok ts) {gaps : List String} (hlength : gaps.length = ts.length)
    (hgaps : ∀ gap ∈ gaps, isGap gap = true) (hapart : KeepsApart ts gaps) :
    Lexes (spaced input ts gaps).toList (ts.map (·.token)) ∧
      ((∀ t ∈ ts.head?, t.span.start = c.position) →
        EndsAs c.rest (spaced input ts gaps).toList) := by
  fun_induction Cursor.tokens c generalizing ts gaps with
  | case1 c c' hnext =>
    cases hts
    rw [toList_spaced_nil]
    exact ⟨.nil, fun _ => .nil _⟩
  | case2 c e c' hnext => cases hts
  | case3 c t c' hnext ih =>
    cases hts' : c'.tokens with
    | error e => rw [hts'] at hts; cases hts
    | ok us =>
      rw [hts'] at hts
      cases hts
      obtain ⟨gap, gaps, rfl⟩ := List.exists_cons_of_length_eq_add_one hlength
      obtain ⟨hgap, hgaps⟩ := List.forall_mem_cons.mp hgaps
      obtain ⟨blanks, lexeme, hblanks, hrest, hstart, hstop, hposition, hread⟩ :=
        Cursor.exists_of_next hnext
      have hlexeme : lexeme ≠ [] := by
        have hpos := Cursor.start_lt_stop_of_next hnext
        rintro rfl
        exact hpos.ne hstop.symm
      rw [hrest] at hc
      have hfront : StandsAt 0 input.toList t.span.start (lexeme ++ c'.rest) := hstart ▸ hc.behind
      have hbehind : StandsAt 0 input.toList c'.position c'.rest :=
        hposition ▸ hstop ▸ hfront.behind
      obtain ⟨hlexes, hends⟩ := ih hbehind hts' (Nat.succ.inj hlength) hgaps hapart.tail
      rw [toList_spaced_cons, hfront.text_eq hstop, String.toList_ofList]
      refine ⟨hread _ _ ?_ (.gap hgap hlexes), fun htouch => ?_⟩
      · cases hb : gap.toList with
        | nil =>
          obtain rfl : gap = "" := String.toList_eq_nil_iff.mp hb
          refine hends fun u hu => ?_
          rw [hposition, hapart.touch hu]
        | cons b bs => exact .blank (List.all_eq_true.mp hgap b (hb ▸ List.mem_cons_self)) _ _
      · have htouch : byteLength blanks = 0 := by
          have := htouch t rfl
          omega
        obtain rfl : blanks = [] := by
          by_contra hne
          exact absurd htouch (byteLength_pos hne).ne'
        rw [hrest]
        exact .append hlexeme _ _

/-- A text is read as the same tokens with other gaps between its lexemes, a gap being closed only
where lexemes touch in the text as well, and it is parsed to the same filter or to none. -/
theorem tokens_respaced {input : String} {ts : List PlacedToken}
    (hts : (Cursor.start input).tokens = .ok ts) {first : String} {gaps : List String}
    (hlength : gaps.length = ts.length) (hgaps : ∀ gap ∈ first :: gaps, isGap gap = true)
    (hapart : KeepsApart ts gaps) :
    (∃ us, (Cursor.start (respaced input first ts gaps)).tokens = .ok us ∧
      us.map (·.token) = ts.map (·.token)) ∧
    ∀ args q, parse (respaced input first ts gaps) args = .ok q ↔ parse input args = .ok q := by
  obtain ⟨hfirst, hgaps⟩ := List.forall_mem_cons.mp hgaps
  obtain ⟨hlexes, -⟩ := lexes_spaced (.of_eq rfl _) hts hlength hgaps hapart
  have hlexes := Lexes.gap hfirst hlexes
  rw [← String.toList_append] at hlexes
  obtain ⟨us, hus, htokens⟩ := hlexes.tokens (respaced input first ts gaps) 0
  have hus : (Cursor.start (respaced input first ts gaps)).tokens = .ok us := hus
  refine ⟨⟨us, hus, htokens⟩, fun args q => ?_⟩
  rw [parse_iff_standsFor hus, parse_iff_standsFor hts, htokens]

theorem tokens_respaced_touching :
    let input := "a<=1and b='x  y'"
    let ts : List PlacedToken :=
      [⟨.identifier "a", ⟨0, 1⟩⟩, ⟨.operator .lessOrEqual, ⟨1, 3⟩⟩, ⟨.constant (.int 1), ⟨3, 4⟩⟩,
        ⟨.connective .and, ⟨4, 7⟩⟩, ⟨.identifier "b", ⟨8, 9⟩⟩, ⟨.operator .equals, ⟨9, 10⟩⟩,
        ⟨.constant (.text "x  y"), ⟨10, 16⟩⟩]
    let gaps := ["\u3000", "", "\n\t", "\x85", " ", "\u2028 ", " "]
    (Cursor.start input).tokens = .ok ts ∧ gaps.length = ts.length ∧
      (∀ gap ∈ "\u00a0" :: gaps, isGap gap = true) ∧ KeepsApart ts gaps ∧
      respaced input "\u00a0" ts gaps = "\u00a0a\u3000<=1\n\tand\x85b =\u2028 'x  y' " ∧
      (∃ us, (Cursor.start (respaced input "\u00a0" ts gaps)).tokens = .ok us ∧
        us.map (·.token) = ts.map (·.token)) ∧
      ∀ args q,
        parse (respaced input "\u00a0" ts gaps) args = .ok q ↔ parse input args = .ok q := by
  intro input ts gaps
  have hts : (Cursor.start input).tokens = .ok ts := by decide +kernel
  have hgaps : ∀ gap ∈ "\u00a0" :: gaps, isGap gap = true := by decide +kernel
  have hapart : KeepsApart ts gaps := by decide +kernel
  exact ⟨hts, rfl, hgaps, hapart, by decide +kernel, tokens_respaced hts rfl hgaps hapart⟩

end FilterLang
