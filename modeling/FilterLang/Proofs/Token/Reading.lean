import Mathlib.Data.List.TakeWhile
import FilterLang.Proofs.Token.Lexing

/-! What reading a lexeme depends on.

A lexeme ends where the next character does not continue it, and nothing further on is looked at: a
scanner that reads a lexeme in front of one text reads it in front of every text that starts alike,
or with a character that continues no lexeme (`scan_readsAlone`). A step of the cursor is such a
reading behind blanks (`Cursor.exists_of_next`). -/

namespace FilterLang

open Text Token

/-- Whether lexemes that end in front of one text end in front of another: it starts with the same
character, or with one that continues no lexeme, or with none. -/
def EndsAs (rest rest' : List Char) : Prop :=
  ∀ c ∈ rest'.head?, c ∈ rest.head? ∨ continuesWord c = false ∧ c ≠ '='

theorem EndsAs.space (rest tail : List Char) : EndsAs rest (' ' :: tail) := by
  rintro _ ⟨⟩
  exact .inr (by decide)

theorem EndsAs.refl (rest : List Char) : EndsAs rest rest := fun _ hc => .inl hc

/-- A run of characters that ends in front of one text ends in front of the other. -/
theorem EndsAs.not_of_head {rest rest' : List Char} (h : EndsAs rest rest') {p : Char → Bool}
    (hp : ∀ c, continuesWord c = false → p c = false)
    (hrest : ∀ c tail, rest = c :: tail → p c = false) :
    ∀ c tail, rest' = c :: tail → p c = false := by
  rintro c tail rfl
  rcases h c rfl with hc | ⟨hc, -⟩
  · obtain ⟨tail', rfl⟩ := List.head?_eq_some_iff.mp hc
    exact hrest c tail' rfl
  · exact hp c hc

theorem not_of_dropWhile_eq_cons {p : Char → Bool} {cs : List Char} :
    ∀ c tail, cs.dropWhile p = c :: tail → p c = false := by
  intro c tail h
  have hhead := List.head?_dropWhile_not p cs
  rwa [h] at hhead

namespace Token

/-- A scanner for lexemes with a first character that looks no further than behind the lexeme. -/
def ReadsAlone (c : Char) (read : List Char → Scan) : Prop :=
  ∀ cs t lexeme rest rest', read cs = .token t lexeme rest → EndsAs rest rest' →
    ∃ tail, lexeme = c :: tail ∧ read (tail ++ rest') = .token t lexeme rest'

namespace ReadsAlone

variable {c : Char}

theorem single (c : Char) (t : Token) : ReadsAlone c fun rest => .token t [c] rest := by
  intro cs t lexeme rest rest' h _
  cases h
  exact ⟨[], rfl, rfl⟩

theorem fault (c : Char) (cause : LexError.Cause) : ReadsAlone c fun _ => .fault cause := by
  intro cs t lexeme rest rest' h
  cases h

theorem ite {p : Prop} [Decidable p] {read read' : List Char → Scan}
    (h : p → ReadsAlone c read) (h' : ¬p → ReadsAlone c read') :
    ReadsAlone c fun rest => if p then read rest else read' rest := by
  by_cases hp : p
  · simp only [if_pos hp]
    exact h hp
  · simp only [if_neg hp]
    exact h' hp

end ReadsAlone

theorem scanWord_readsAlone (c : Char) : ReadsAlone c (scanWord c) := by
  intro cs t lexeme rest rest' h hrest
  cases h
  have hend := hrest.not_of_head (fun _ => id) not_of_dropWhile_eq_cons
  obtain ⟨htake, hdrop⟩ :=
    takeWhile_append_of_head rest' (fun _ hd => List.mem_takeWhile_imp hd) hend
  refine ⟨cs.takeWhile continuesWord, rfl, ?_⟩
  rw [scanWord, htake, hdrop]

theorem scanInteger_readsAlone (c : Char) : ReadsAlone c (scanInteger c) := by
  intro cs t lexeme rest rest' h hrest
  rw [scanInteger] at h
  split at h
  · rename_i i hi
    cases h
    have hend :=
      hrest.not_of_head (fun _ => not_isDigit_of_not_continuesWord) not_of_dropWhile_eq_cons
    obtain ⟨htake, hdrop⟩ :=
      takeWhile_append_of_head rest' (fun _ hd => List.mem_takeWhile_imp hd) hend
    refine ⟨cs.takeWhile Char.isDigit, rfl, ?_⟩
    rw [scanInteger, htake, hdrop, hi]
  · cases h

theorem scanOperator_readsAlone (c : Char) : ReadsAlone c (scanOperator c) := by
  intro cs t lexeme rest rest' h hrest
  have hlexeme : ∃ tail, (operatorLexeme c cs).1 = c :: tail ∧
      (EndsAs (operatorLexeme c cs).2 rest' →
        operatorLexeme c (tail ++ rest') = (c :: tail, rest')) := by
    by_cases hc : c ≠ '=' ∧ cs.head? = some '='
    · refine ⟨['='], by rw [operatorLexeme, if_pos hc], fun _ => ?_⟩
      rw [operatorLexeme, if_pos ⟨hc.1, rfl⟩]
      rfl
    · refine ⟨[], by rw [operatorLexeme, if_neg hc], fun hend => ?_⟩
      rw [operatorLexeme, if_neg hc] at hend
      rw [List.nil_append, operatorLexeme, if_neg]
      rintro ⟨hne, hhead⟩
      rcases hend '=' hhead with h | ⟨-, h⟩
      · exact hc ⟨hne, h⟩
      · exact h rfl
  obtain ⟨tail, htail, hread⟩ := hlexeme
  rw [scanOperator] at h
  dsimp only at h
  split at h
  · rename_i comparison hcomparison
    cases h
    refine ⟨tail, htail, ?_⟩
    rw [htail] at hcomparison
    rw [scanOperator, hread hrest, htail]
    simp only [hcomparison]
  · cases h

/-- Quoted text ends at its own quote. -/
theorem readQuoted?_rest {cs value lexeme rest : List Char}
    (h : readQuoted? cs = some (value, lexeme, rest)) (rest' : List Char) :
    readQuoted? (lexeme ++ rest') = some (value, lexeme, rest') := by
  fun_induction readQuoted? cs generalizing value lexeme rest with
  | case1 => cases h
  | case2 => cases h; rfl
  | case3 => cases h
  | case4 c tail ih =>
    obtain ⟨⟨v, l, r⟩, hr, he⟩ := Option.map_eq_some_iff.mp h
    cases he
    rw [List.cons_append, List.cons_append, readQuoted?, ih hr]
    rfl
  | case5 c tail hquote hlast hslash ih =>
    obtain ⟨⟨v, l, r⟩, hr, he⟩ := Option.map_eq_some_iff.mp h
    cases he
    have hc : c ≠ '\\' := by
      rintro rfl
      cases tail with
      | nil => exact hlast rfl rfl
      | cons d tail => exact hslash d tail rfl rfl
    rw [List.cons_append, readQuoted?, ih hr]
    · rfl
    · exact hquote
    · exact fun h _ => hc h
    · exact fun _ _ h _ => hc h

theorem scanString_readsAlone : ReadsAlone '\'' scanString := by
  intro cs t lexeme rest rest' h _
  rw [scanString] at h
  split at h
  · rename_i value lexeme rest hread
    cases h
    refine ⟨lexeme, rfl, ?_⟩
    rw [scanString, readQuoted?_rest hread]
  · cases h

theorem scanParameter_readsAlone : ReadsAlone '{' scanParameter := by
  intro cs t lexeme rest rest' h _
  rw [scanParameter] at h
  split at h
  · rename_i after hdrop
    split at h
    · cases h
    · rename_i hindex
      cases h
      refine ⟨cs.takeWhile Char.isDigit ++ ['}'], rfl, ?_⟩
      have hbrace : ∀ d tail, '}' :: rest' = d :: tail → d.isDigit = false := by
        rintro _ _ ⟨⟩
        decide
      obtain ⟨htake, hdrop'⟩ :=
        takeWhile_append_of_head ('}' :: rest') (fun _ hd => List.mem_takeWhile_imp hd) hbrace
      rw [List.append_assoc, List.singleton_append, scanParameter, htake, hdrop']
      simp only [if_neg hindex]
  · cases h

/-- Reading a lexeme depends on nothing behind the character after it. -/
theorem scan_readsAlone (c : Char) : ReadsAlone c (scan c) := by
  refine .ite (fun _ => .single c _) fun _ => ?_
  refine .ite (fun _ => .single c _) fun _ => ?_
  refine .ite (fun _ => .single c _) fun _ => ?_
  refine .ite (fun _ => scanOperator_readsAlone c) fun _ => ?_
  refine .ite (fun hc => hc ▸ scanString_readsAlone) fun _ => ?_
  refine .ite (fun hc => hc ▸ scanParameter_readsAlone) fun _ => ?_
  refine .ite (fun _ => scanInteger_readsAlone c) fun _ => ?_
  exact .ite (fun _ => scanWord_readsAlone c) fun _ => .fault c _

end Token

theorem byteLength_cons (c : Char) (cs : List Char) :
    byteLength (c :: cs) = c.utf8Size + byteLength cs := rfl

theorem byteLength_append (cs ds : List Char) :
    byteLength (cs ++ ds) = byteLength cs + byteLength ds := by
  induction cs with
  | nil => exact (Nat.zero_add _).symm
  | cons c cs ih => rw [List.cons_append, byteLength_cons, byteLength_cons, ih, Nat.add_assoc]

theorem Lexes.blanks {bs cs : List Char} {ts : List Token} (hbs : ∀ b ∈ bs, isBlank b = true)
    (h : Lexes cs ts) : Lexes (bs ++ cs) ts := by
  induction bs with
  | nil => exact h
  | cons b bs ih =>
    obtain ⟨hb, hbs⟩ := List.forall_mem_cons.mp hbs
    exact .blank hb (ih hbs)

/-- Where no token comes, there are blanks alone. -/
theorem Cursor.isBlank_of_next_finished {c c' : Cursor} (h : c.next = (.finished, c')) :
    ∀ b ∈ c.rest, isBlank b = true := by
  rw [next] at h
  dsimp only at h
  split at h
  · rename_i hdrop
    exact List.dropWhile_eq_nil_iff.mp hdrop
  · split at h <;> cases h

/-- A step over a token passes blanks and reads the lexeme behind them. -/
theorem Cursor.exists_scan_of_next {c c' : Cursor} {t : PlacedToken}
    (h : c.next = (.token t, c')) :
    ∃ blanks first tail lexeme, (∀ b ∈ blanks, isBlank b = true) ∧ isBlank first = false ∧
      c.rest = blanks ++ first :: tail ∧ scan first tail = .token t.token lexeme c'.rest ∧
      t.span = ⟨c.position + byteLength blanks, c'.position⟩ ∧
      c'.position = c.position + byteLength blanks + byteLength lexeme ∧ c'.input = c.input := by
  rw [next] at h
  dsimp only at h
  split at h
  · cases h
  · rename_i first tail hdrop
    split at h
    · rename_i token lexeme rest hscan
      cases h
      refine ⟨c.rest.takeWhile isBlank, first, tail, lexeme, fun _ => List.mem_takeWhile_imp,
        not_of_dropWhile_eq_cons first tail hdrop, ?_, hscan, rfl, rfl, rfl⟩
      rw [← hdrop, List.takeWhile_append_dropWhile]
    · cases h

/-- The lexeme of a step is read as the token in front of any text at which it ends as well. -/
theorem Cursor.exists_of_next {c c' : Cursor} {t : PlacedToken} (h : c.next = (.token t, c')) :
    ∃ blanks lexeme, (∀ b ∈ blanks, isBlank b = true) ∧ c.rest = blanks ++ (lexeme ++ c'.rest) ∧
      t.span.start = c.position + byteLength blanks ∧
      t.span.stop = t.span.start + byteLength lexeme ∧ c'.position = t.span.stop ∧
      ∀ rest ts, EndsAs c'.rest rest → Lexes rest ts → Lexes (lexeme ++ rest) (t.token :: ts) := by
  obtain ⟨blanks, first, tail, lexeme, hblanks, hfirst, hrest, hscan, hspan, hposition, -⟩ :=
    exists_scan_of_next h
  obtain ⟨hsplit, -⟩ := scan_splits first tail _ _ _ hscan
  refine ⟨blanks, lexeme, hblanks, hsplit ▸ hrest, by rw [hspan], by rw [hspan, hposition],
    by rw [hspan], ?_⟩
  intro rest' ts hends hts
  obtain ⟨tail', rfl, hscan'⟩ := scan_readsAlone first _ _ _ _ _ hscan hends
  exact .token hfirst hscan' hts

end FilterLang
