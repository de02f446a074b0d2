import Mathlib.Data.String.Basic
import FilterLang.Proofs.Token.Scanning

/-! The lexer loses and invents nothing.

`Cursor.reading` is what the lexer reads until the text ends or an error ends it. A step of the
cursor passes blanks and then a lexeme or the start of a bad one (`Cursor.exists_scan_of_next`,
`Cursor.exists_scan_of_next_fault`), so that blanks, lexemes and at most one error make up the whole
text (`Tiling`). Main statement: `reading_tiles`. -/

namespace FilterLang

open Text Token

/-! ### Readings -/

/-- What the lexer reads: tokens, and the error that ends them, if one does. -/
structure Reading where
  tokens : List PlacedToken
  error? : Option LexError

namespace Reading

/-- The answers that are not the end of the text. -/
def answers (r : Reading) : List Cursor.Step := r.tokens.map .token ++ r.error?.toList.map .fault

/-- The tokens of a text and the error that ends them account for all of its characters but
blanks. -/
structure Tiles (r : Reading) (input : String) : Prop where
  nonempty : ∀ t ∈ r.tokens, t.span.start < t.span.stop
  /-- Each token ends before the next one starts. -/
  ordered : r.tokens.Pairwise fun t u => t.span.stop ≤ u.span.start
  /-- Tokens start and end between two characters of the text. -/
  isValid : ∀ t ∈ r.tokens,
    String.Pos.Raw.IsValid input ⟨t.span.start⟩ ∧ String.Pos.Raw.IsValid input ⟨t.span.stop⟩
  within : ∀ t ∈ r.tokens, t.span.stop ≤ input.utf8ByteSize
  /-- A character in no token is a blank, unless it does not come before the error. -/
  isBlank : ∀ (position : Nat) (c : Char), String.Pos.Raw.get? input ⟨position⟩ = some c →
    (∀ e ∈ r.error?, position < e.position) →
    (∀ t ∈ r.tokens, position < t.span.start ∨ t.span.stop ≤ position) → Text.isBlank c = true
  /-- The error stands behind the tokens, at a character that is no blank, and names no other. -/
  error : ∀ e ∈ r.error?, (∀ t ∈ r.tokens, t.span.stop ≤ e.position) ∧
    ∃ c, String.Pos.Raw.get? input ⟨e.position⟩ = some c ∧ Text.isBlank c = false ∧
      ∀ d, e.cause = .unexpectedCharacter d → d = c

end Reading

namespace Cursor

/-- What is read from a place on. -/
def reading (c : Cursor) : Reading :=
  match _h : c.next with
  | (.finished, _) => ⟨[], none⟩
  | (.fault e, _) => ⟨[], some e⟩
  | (.token t, c') => ⟨t :: c'.reading.tokens, c'.reading.error?⟩
termination_by c.rest.length
decreasing_by all_goals exact rest_length_lt _h

/-- The cursor after some calls. -/
def after (c : Cursor) : Nat → Cursor
  | 0 => c
  | n + 1 => c.next.2.after n

/-- What a call answers after some others. -/
def answer (c : Cursor) (n : Nat) : Step := (c.after n).next.1

end Cursor

/-- What is read of a whole text. -/
def Reading.ofText (input : String) : Reading := (Cursor.start input).reading

namespace Cursor

/-- An error is found at the first character behind blanks, and leaves the cursor at the end. -/
theorem exists_scan_of_next_fault {c c' : Cursor} {e : LexError} (h : c.next = (.fault e, c')) :
    ∃ blanks first tail, (∀ b ∈ blanks, isBlank b = true) ∧ isBlank first = false ∧
      c.rest = blanks ++ first :: tail ∧ scan first tail = .fault e.cause ∧
      e.position = c.position + byteLength blanks ∧ c' = c.toEnd := by
  rw [next] at h
  dsimp only at h
  split at h
  · cases h
  · rename_i first tail hdrop
    split at h
    · cases h
    · rename_i cause hscan
      cases h
      refine ⟨c.rest.takeWhile isBlank, first, tail, fun _ => List.mem_takeWhile_imp,
        not_of_dropWhile_eq_cons first tail hdrop, ?_, hscan, rfl, rfl⟩
      rw [← hdrop, List.takeWhile_append_dropWhile]

theorem tokens_of_next_fault {c c' : Cursor} {e : LexError} (h : c.next = (.fault e, c')) :
    c.tokens = .error e := by
  rw [tokens]
  split <;> simp_all

theorem reading_of_next_token {c c' : Cursor} {t : PlacedToken} (h : c.next = (.token t, c')) :
    c.reading = ⟨t :: c'.reading.tokens, c'.reading.error?⟩ := by
  rw [reading]
  split <;> simp_all

theorem reading_of_next_fault {c c' : Cursor} {e : LexError} (h : c.next = (.fault e, c')) :
    c.reading = ⟨[], some e⟩ := by
  rw [reading]
  split <;> simp_all

theorem reading_of_next_finished {c c' : Cursor} (h : c.next = (.finished, c')) :
    c.reading = ⟨[], none⟩ := by
  rw [reading]
  split <;> simp_all

/-- Reading is reading tokens up to an error. -/
theorem tokens_eq_reading (c : Cursor) :
    c.tokens = c.reading.error?.elim (.ok c.reading.tokens) .error := by
  fun_induction reading c with
  | case1 c c' hnext => exact tokens_of_next_finished hnext
  | case2 c e c' hnext => exact tokens_of_next_fault hnext
  | case3 c t c' hnext ih =>
    rw [tokens_of_next_token hnext, ih]
    cases c'.reading.error? <;> rfl

end Cursor

theorem Reading.tokens_start_eq_ok_iff {input : String} {ts : List PlacedToken} :
    (Cursor.start input).tokens = .ok ts ↔
      (ofText input).error? = none ∧ (ofText input).tokens = ts := by
  rw [Cursor.tokens_eq_reading, ofText]
  cases (Cursor.start input).reading.error? <;> simp

/-! ### Tilings -/

/-- Characters from a position on, cut into blanks, lexemes and at most one error. -/
inductive Tiling : Nat → List Char → Reading → Prop
  | finished {position : Nat} {blanks : List Char} (hblanks : ∀ b ∈ blanks, isBlank b = true) :
    Tiling position blanks ⟨[], none⟩
  | fault {position : Nat} {blanks tail : List Char} {first : Char} {e : LexError}
    (hblanks : ∀ b ∈ blanks, isBlank b = true) (hfirst : isBlank first = false)
    (hposition : e.position = position + byteLength blanks)
    (hcause : ∀ d, e.cause = .unexpectedCharacter d → d = first) :
    Tiling position (blanks ++ first :: tail) ⟨[], some e⟩
  | token {position : Nat} {blanks lexeme rest : List Char} {t : PlacedToken} {r : Reading}
    (hblanks : ∀ b ∈ blanks, isBlank b = true) (hlexeme : lexeme ≠ [])
    (hstart : t.span.start = position + byteLength blanks)
    (hstop : t.span.stop = t.span.start + byteLength lexeme) (h : Tiling t.span.stop rest r) :
    Tiling position (blanks ++ (lexeme ++ rest)) ⟨t :: r.tokens, r.error?⟩

theorem Cursor.tiling_reading (c : Cursor) : Tiling c.position c.rest c.reading := by
  fun_induction reading c with
  | case1 c c' hnext => exact .finished (isBlank_of_next_finished hnext)
  | case2 c e c' hnext =>
    obtain ⟨blanks, first, tail, hblanks, hfirst, hrest, hscan, hposition, -⟩ :=
      exists_scan_of_next_fault hnext
    rw [hrest]
    refine .fault hblanks hfirst hposition fun d hd => ?_
    have hsound := scan_sound first tail
    rw [hscan, hd] at hsound
    exact hsound.eq_of_unexpected
  | case3 c t c' hnext ih =>
    obtain ⟨blanks, first, tail, lexeme, hblanks, -, hrest, hscan, hspan, hposition, -⟩ :=
      exists_scan_of_next hnext
    obtain ⟨hsplit, hlexeme⟩ := scan_splits first tail _ _ _ hscan
    have hstop : c'.position = t.span.stop := by rw [hspan]
    rw [hrest, hsplit]
    refine .token hblanks hlexeme (by rw [hspan]) ?_ (hstop ▸ ih)
    rw [← hstop, hposition, hspan]

/-- What the lexer reads as a name is a word that is not reserved. -/
theorem Cursor.isName_of_mem_reading {name : String} (c : Cursor) :
    ∀ t ∈ c.reading.tokens, t.token = .identifier name → IsName name := by
  fun_induction reading c with
  | case1 | case2 => exact List.forall_mem_nil _
  | case3 c t c' hnext ih =>
    obtain ⟨_, first, tail, _, -, -, -, hscan, -⟩ := exists_scan_of_next hnext
    refine List.forall_mem_cons.mpr ⟨fun ht => ?_, ih⟩
    have hsound := scan_sound first tail
    rw [hscan, ht] at hsound
    exact hsound.isName

theorem Reading.tiling_ofText (input : String) : Tiling 0 input.toList (ofText input) :=
  (Cursor.start input).tiling_reading

/-- Some characters of a text, from a byte of it on; the text itself starts at `position`. -/
def StandsAt (position : Nat) (cs : List Char) (place : Nat) (rest : List Char) : Prop :=
  ∃ before, cs = before ++ rest ∧ place = position + byteLength before

namespace StandsAt

variable {position place : Nat} {front cs rest : List Char} {c : Char}

theorem of_eq (h : place = position) (cs : List Char) : StandsAt position cs place cs :=
  ⟨[], rfl, h⟩

theorem append (h : StandsAt (position + byteLength front) cs place rest) :
    StandsAt position (front ++ cs) place rest := by
  obtain ⟨before, rfl, rfl⟩ := h
  exact ⟨front ++ before, (List.append_assoc ..).symm, by rw [byteLength_append, Nat.add_assoc]⟩

/-- A character of a text stands in a front part of it or behind that. -/
theorem cases (h : StandsAt position (front ++ cs) place (c :: rest)) :
    c ∈ front ∧ position ≤ place ∧ place < position + byteLength front ∨
      StandsAt (position + byteLength front) cs place (c :: rest) := by
  obtain ⟨before, hsplit, rfl⟩ := h
  rcases List.append_eq_append_iff.mp hsplit with ⟨as, rfl, rfl⟩ | ⟨bs, rfl, hrest⟩
  · exact .inr ⟨as, rfl, by rw [byteLength_append, Nat.add_assoc]⟩
  · cases bs with
    | nil => exact .inr ⟨[], hrest.symm, by rw [List.append_nil]; rfl⟩
    | cons b bs =>
      cases hrest
      have hc := c.utf8Size_pos
      refine .inl ⟨List.mem_append_right _ List.mem_cons_self, Nat.le_add_right .., ?_⟩
      rw [byteLength_append, byteLength_cons]
      omega

end StandsAt

theorem byteLength_pos {cs : List Char} (h : cs ≠ []) : 0 < byteLength cs := by
  obtain ⟨c, cs, rfl⟩ := List.exists_cons_of_ne_nil h
  exact Nat.add_pos_left c.utf8Size_pos _

namespace Tiling

variable {position : Nat} {cs : List Char} {r : Reading}

theorem start_lt_stop (h : Tiling position cs r) : ∀ t ∈ r.tokens, t.span.start < t.span.stop := by
  induction h with
  | finished | fault => exact List.forall_mem_nil _
  | token _ hlexeme _ hstop _ ih =>
    refine List.forall_mem_cons.mpr ⟨?_, ih⟩
    rw [hstop]
    exact Nat.lt_add_of_pos_right (byteLength_pos hlexeme)

/-- All that is read is behind the place where reading starts. -/
theorem position_le (h : Tiling position cs r) :
    (∀ t ∈ r.tokens, position ≤ t.span.start) ∧ ∀ e ∈ r.error?, position ≤ e.position := by
  induction h with
  | finished => exact ⟨List.forall_mem_nil _, fun _ he => nomatch he⟩
  | fault _ _ hposition _ =>
    refine ⟨List.forall_mem_nil _, ?_⟩
    rintro _ ⟨⟩
    exact hposition ▸ Nat.le_add_right ..
  | token _ _ hstart hstop _ ih =>
    refine ⟨List.forall_mem_cons.mpr ⟨by omega, fun u hu => ?_⟩, fun e he => ?_⟩
    · have := ih.1 u hu
      omega
    · have := ih.2 e he
      omega

theorem pairwise (h : Tiling position cs r) :
    r.tokens.Pairwise fun t u => t.span.stop ≤ u.span.start := by
  induction h with
  | finished | fault => exact .nil
  | token _ _ _ _ h ih => exact .cons h.position_le.1 ih

theorem stop_le_error (h : Tiling position cs r) :
    ∀ e ∈ r.error?, ∀ t ∈ r.tokens, t.span.stop ≤ e.position := by
  induction h with
  | finished | fault => exact fun _ _ => List.forall_mem_nil _
  | token _ _ _ _ h ih =>
    exact fun e he => List.forall_mem_cons.mpr ⟨h.position_le.2 e he, ih e he⟩

/-- Tokens start and end between two characters. -/
theorem standsAt (h : Tiling position cs r) : ∀ t ∈ r.tokens,
    (∃ rest, StandsAt position cs t.span.start rest) ∧
      ∃ rest, StandsAt position cs t.span.stop rest := by
  induction h with
  | finished | fault => exact List.forall_mem_nil _
  | @token position blanks lexeme rest t r _ _ hstart hstop _ ih =>
    have hposition : t.span.stop = position + byteLength blanks + byteLength lexeme := by
      rw [hstop, hstart]
    refine List.forall_mem_cons.mpr ⟨⟨⟨lexeme ++ rest, ?_⟩, rest, ?_⟩, fun u hu => ?_⟩
    · exact .append (.of_eq hstart _)
    · exact .append (.append (.of_eq hposition _))
    · rw [hposition] at ih
      obtain ⟨⟨rest₁, hstart⟩, rest₂, hstop⟩ := ih u hu
      exact ⟨⟨rest₁, .append (.append hstart)⟩, rest₂, .append (.append hstop)⟩

theorem standsAt_error (h : Tiling position cs r) : ∀ e ∈ r.error?, ∃ c rest,
    StandsAt position cs e.position (c :: rest) ∧ isBlank c = false ∧
      ∀ d, e.cause = .unexpectedCharacter d → d = c := by
  induction h with
  | finished => nofun
  | @fault _ _ tail first _ _ hfirst hposition hcause =>
    rintro _ ⟨⟩
    exact ⟨first, tail, .append (.of_eq hposition _), hfirst, hcause⟩
  | token _ _ hstart hstop _ ih =>
    rw [hstop, hstart] at ih
    intro e he
    obtain ⟨c, rest, hc, hspec⟩ := ih e he
    exact ⟨c, rest, .append (.append hc), hspec⟩

/-- A character in no token is a blank, unless an error comes before it. -/
theorem isBlank_of_standsAt (h : Tiling position cs r) {place : Nat} {c : Char} {rest : List Char}
    (hc : StandsAt position cs place (c :: rest)) (herror : ∀ e ∈ r.error?, place < e.position)
    (htokens : ∀ t ∈ r.tokens, place < t.span.start ∨ t.span.stop ≤ place) : isBlank c = true := by
  induction h with
  | finished hblanks =>
    obtain ⟨before, rfl, -⟩ := hc
    exact hblanks c (List.mem_append_right _ List.mem_cons_self)
  | fault hblanks _ hposition _ =>
    rcases hc.cases with ⟨hc, -⟩ | ⟨before, -, hplace⟩
    · exact hblanks c hc
    · have := herror _ rfl
      omega
  | token hblanks _ hstart hstop _ ih =>
    obtain ⟨ht, htokens⟩ := List.forall_mem_cons.mp htokens
    rcases hc.cases with ⟨hc, -⟩ | hc
    · exact hblanks c hc
    rcases hc.cases with ⟨-, hle, hlt⟩ | hc
    · omega
    · rw [← hstart, ← hstop] at hc
      exact ih hc herror htokens

/-- A token has at least one byte. -/
theorem length_tokens_le (h : Tiling position cs r) : r.tokens.length ≤ byteLength cs := by
  induction h with
  | finished | fault => exact Nat.zero_le _
  | token _ hlexeme _ _ _ ih =>
    have hpos := byteLength_pos hlexeme
    rw [byteLength_append, byteLength_append, List.length_cons]
    omega

end Tiling

/-! ### Positions in the text -/

section Positions

variable {input : String} {place : Nat} {c : Char} {rest : List Char}

theorem byteLength_eq_utf8Len (cs : List Char) : byteLength cs = String.utf8Len cs := by
  induction cs with
  | nil => rfl
  | cons c cs ih => rw [byteLength_cons, ih, String.utf8Len_cons, Nat.add_comm]

theorem byteLength_toList (input : String) : byteLength input.toList = input.utf8ByteSize := by
  rw [byteLength_eq_utf8Len, String.utf8Len_toList]

theorem StandsAt.le_utf8ByteSize (h : StandsAt 0 input.toList place rest) :
    place ≤ input.utf8ByteSize := by
  obtain ⟨before, hsplit, rfl⟩ := h
  rw [← byteLength_toList, hsplit, byteLength_append, Nat.zero_add]
  exact Nat.le_add_right ..

theorem StandsAt.isValid (h : StandsAt 0 input.toList place rest) :
    String.Pos.Raw.IsValid input ⟨place⟩ := by
  obtain ⟨before, hsplit, rfl⟩ := h
  refine String.Pos.Raw.isValid_iff_exists_append.mpr
    ⟨String.ofList before, String.ofList rest, ?_, ?_⟩
  · rw [← String.ofList_append, ← hsplit, String.ofList_toList]
  · rw [String.rawEndPos_ofList, Nat.zero_add, byteLength_eq_utf8Len]

theorem StandsAt.get?_eq (h : StandsAt 0 input.toList place (c :: rest)) :
    String.Pos.Raw.get? input ⟨place⟩ = some c := by
  obtain ⟨before, hsplit, rfl⟩ := h
  rw [← String.ofList_toList (s := input), hsplit, Nat.zero_add, byteLength_eq_utf8Len,
    String.get?_of_valid]
  rfl

private theorem standsAt_of_utf8GetAux? {cs : List Char} {position : Nat}
    (h : String.Pos.Raw.utf8GetAux? cs ⟨position⟩ ⟨place⟩ = some c) :
    ∃ rest, StandsAt position cs place (c :: rest) := by
  induction cs generalizing position with
  | nil => cases h
  | cons d cs ih =>
    rw [String.Pos.Raw.utf8GetAux?] at h
    split at h
    · rename_i hposition
      cases h
      cases hposition
      exact ⟨cs, .of_eq rfl _⟩
    · obtain ⟨rest, hrest⟩ := ih h
      have happend : StandsAt position ([d] ++ cs) place (c :: rest) := hrest.append
      exact ⟨rest, happend⟩

theorem standsAt_of_get? (h : String.Pos.Raw.get? input ⟨place⟩ = some c) :
    ∃ rest, StandsAt 0 input.toList place (c :: rest) := standsAt_of_utf8GetAux? h

end Positions

theorem Tiling.tiles {input : String} {r : Reading} (h : Tiling 0 input.toList r) :
    r.Tiles input where
  nonempty := h.start_lt_stop
  ordered := h.pairwise
  isValid t ht :=
    have ⟨⟨_, hstart⟩, _, hstop⟩ := h.standsAt t ht
    ⟨hstart.isValid, hstop.isValid⟩
  within t ht :=
    have ⟨_, _, hstop⟩ := h.standsAt t ht
    hstop.le_utf8ByteSize
  isBlank _ _ hc herror htokens :=
    have ⟨_, hc⟩ := standsAt_of_get? hc
    h.isBlank_of_standsAt hc herror htokens
  error e he :=
    have ⟨c, _, hc, hblank, hcause⟩ := h.standsAt_error e he
    ⟨h.stop_le_error e he, c, hc.get?_eq, hblank, hcause⟩

/-! ### Repeated calls -/

namespace Cursor

/-- A cursor stands where the characters behind it start. -/
def InText (c : Cursor) : Prop := c.position + byteLength c.rest = byteLength c.input.toList

theorem inText_start (input : String) : (start input).InText := Nat.zero_add _

theorem inText_next {c : Cursor} (h : c.InText) :
    c.next.2.InText ∧ c.next.2.input = c.input := by
  cases hnext : c.next with | mk step c' =>
  cases step with
  | finished =>
    have hblanks := List.takeWhile_eq_self_iff.mpr (isBlank_of_next_finished hnext)
    have hdrop := List.dropWhile_eq_nil_iff.mpr (isBlank_of_next_finished hnext)
    rw [next, hdrop, hblanks] at hnext
    cases hnext
    exact ⟨h, rfl⟩
  | fault e =>
    obtain ⟨_, _, _, _, _, _, _, _, rfl⟩ := exists_scan_of_next_fault hnext
    exact ⟨rfl, rfl⟩
  | token t =>
    obtain ⟨blanks, first, tail, lexeme, -, -, hrest, hscan, -, hposition, hinput⟩ :=
      exists_scan_of_next hnext
    obtain ⟨hsplit, -⟩ := scan_splits first tail _ _ _ hscan
    refine ⟨?_, hinput⟩
    rw [InText, hrest, hsplit, byteLength_append, byteLength_append] at h
    rw [InText, hinput, ← h, hposition, Nat.add_assoc, Nat.add_assoc]

theorem inText_after {c : Cursor} (h : c.InText) (n : Nat) :
    (c.after n).InText ∧ (c.after n).input = c.input := by
  induction n generalizing c with
  | zero => exact ⟨h, rfl⟩
  | succ n ih =>
    obtain ⟨hnext, hinput⟩ := inText_next h
    exact hinput ▸ ih hnext

theorem rest_of_next_finished {c c' : Cursor} (h : c.next = (.finished, c')) : c'.rest = [] := by
  rw [next, List.dropWhile_eq_nil_iff.mpr (isBlank_of_next_finished h)] at h
  cases h
  rfl

theorem rest_of_next_fault {c c' : Cursor} {e : LexError} (h : c.next = (.fault e, c')) :
    c'.rest = [] := by
  obtain ⟨_, _, _, _, _, _, _, _, rfl⟩ := exists_scan_of_next_fault h
  rfl

theorem next_of_rest_eq_nil {c : Cursor} (h : c.rest = []) : c.next = (.finished, c) := by
  obtain ⟨input, position, rest⟩ := c
  cases h
  rfl

theorem reading_of_rest_eq_nil {c : Cursor} (h : c.rest = []) : c.reading = ⟨[], none⟩ :=
  reading_of_next_finished (next_of_rest_eq_nil h)

/-- The calls answer what is read, one item each, and then that the text has ended. -/
theorem answer_eq (c : Cursor) (n : Nat) : c.answer n = (c.reading.answers[n]?).getD .finished := by
  induction n generalizing c with
  | zero =>
    cases hnext : c.next with | mk step c' =>
    have hanswer : c.answer 0 = step := congrArg Prod.fst hnext
    cases step with
    | finished => rw [hanswer, reading_of_next_finished hnext]; rfl
    | fault e => rw [hanswer, reading_of_next_fault hnext]; rfl
    | token t => rw [hanswer, reading_of_next_token hnext]; rfl
  | succ n ih =>
    cases hnext : c.next with | mk step c' =>
    have hanswer : c.answer (n + 1) = c'.answer n := by rw [answer, after, hnext, answer]
    rw [hanswer, ih]
    cases step with
    | finished =>
      rw [reading_of_rest_eq_nil (rest_of_next_finished hnext),
        reading_of_next_finished hnext]
      rfl
    | fault e =>
      rw [reading_of_rest_eq_nil (rest_of_next_fault hnext), reading_of_next_fault hnext]
      rfl
    | token t =>
      rw [reading_of_next_token hnext]
      rfl

theorem rest_after_of_rest_eq_nil {c : Cursor} (h : c.rest = []) (n : Nat) :
    (c.after n).rest = [] := by
  induction n with
  | zero => exact h
  | succ n ih => rwa [after, next_of_rest_eq_nil h]

/-- After one call more than there are tokens, the cursor is at the end. -/
theorem rest_after {c : Cursor} {n : Nat} (h : c.reading.tokens.length < n) :
    (c.after n).rest = [] := by
  induction n generalizing c with
  | zero => exact absurd h (Nat.not_lt_zero _)
  | succ n ih =>
    cases hnext : c.next with | mk step c' =>
    rw [after, hnext]
    cases step with
    | finished => exact rest_after_of_rest_eq_nil (rest_of_next_finished hnext) n
    | fault e => exact rest_after_of_rest_eq_nil (rest_of_next_fault hnext) n
    | token t =>
      rw [reading_of_next_token hnext] at h
      exact ih (Nat.lt_of_succ_lt_succ h)

theorem position_after {input : String} {n : Nat} (h : (Reading.ofText input).tokens.length < n) :
    ((start input).after n).position = input.utf8ByteSize := by
  obtain ⟨hplace, hinput⟩ := inText_after (inText_start input) n
  rwa [InText, rest_after h, hinput, byteLength_toList] at hplace

end Cursor

/-- Whatever the text, the calls answer finitely many tokens, then at most one error, and from then
on only that the text has ended, with the cursor at its end; and the tokens and the error account
for all of the text but blanks. -/
theorem reading_tiles (input : String) :
    (∀ n, (Cursor.start input).answer n = ((Reading.ofText input).answers[n]?).getD .finished) ∧
      (∀ n, (Reading.ofText input).tokens.length < n →
        ((Cursor.start input).after n).position = input.utf8ByteSize) ∧
      (Reading.ofText input).Tiles input :=
  ⟨Cursor.answer_eq _, fun _ => Cursor.position_after, (Reading.tiling_ofText input).tiles⟩

end FilterLang
