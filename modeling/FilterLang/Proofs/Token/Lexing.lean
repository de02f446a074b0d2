import FilterLang.Proofs.Text.Plain
import FilterLang.Token.Lexer

/-! The tokens of a text that is put together from lexemes.

`Lexes` relates characters to their tokens, one lexeme or blank at a time, and `Lexes.tokens` says
that the lexer reads what it relates. A lexeme that the next character could continue is read whole
in front of a text that is `Delimited`. -/

namespace FilterLang

open Text Token

/-- Characters that are lexemes with blanks between them, and the tokens of the lexemes. -/
inductive Lexes : List Char → List Token → Prop
  | nil : Lexes [] []
  | blank {c : Char} {cs : List Char} {ts : List Token} (hc : isBlank c = true) (h : Lexes cs ts) :
    Lexes (c :: cs) ts
  | token {c : Char} {cs lexeme rest : List Char} {t : Token} {ts : List Token}
    (hc : isBlank c = false) (hscan : scan c cs = .token t lexeme rest) (h : Lexes rest ts) :
    Lexes (c :: cs) (t :: ts)

namespace Cursor

theorem tokens_of_next_finished {c c' : Cursor} (h : c.next = (.finished, c')) :
    c.tokens = .ok [] := by
  rw [tokens]
  split <;> simp_all

theorem tokens_of_next_token {c c' : Cursor} {t : PlacedToken} (h : c.next = (.token t, c')) :
    c.tokens = c'.tokens.map (t :: ·) := by
  rw [tokens]
  split <;> simp_all

/-- The tokens depend on what comes next alone. -/
theorem tokens_congr {c c' : Cursor} (h : c.next = c'.next) : c.tokens = c'.tokens := by
  rw [tokens, tokens]
  split <;> split <;> simp_all

theorem next_blank {ch : Char} (h : isBlank ch = true) (input : String) (position : Nat)
    (cs : List Char) :
    next ⟨input, position, ch :: cs⟩ = next ⟨input, position + ch.utf8Size, cs⟩ := by
  simp only [next, List.takeWhile_cons_of_pos h, List.dropWhile_cons_of_pos h, byteLength,
    List.foldr_cons, Nat.add_assoc]
  rfl

end Cursor

theorem Lexes.tokens {cs : List Char} {ts : List Token} (h : Lexes cs ts) (input : String)
    (position : Nat) :
    ∃ placed, Cursor.tokens ⟨input, position, cs⟩ = .ok placed ∧ placed.map (·.token) = ts := by
  induction h generalizing position with
  | nil => exact ⟨[], Cursor.tokens_of_next_finished rfl, rfl⟩
  | @blank c cs ts hc _ ih =>
    obtain ⟨placed, htokens, hplaced⟩ := ih (position + c.utf8Size)
    refine ⟨placed, ?_, hplaced⟩
    rw [← htokens]
    exact Cursor.tokens_congr (Cursor.next_blank hc ..)
  | @token c cs lexeme rest t ts hc hscan _ ih =>
    obtain ⟨placed, htokens, hplaced⟩ := ih (position + byteLength lexeme)
    have hnext : Cursor.next ⟨input, position, c :: cs⟩ =
        (.token ⟨t, ⟨position, position + byteLength lexeme⟩⟩,
          ⟨input, position + byteLength lexeme, rest⟩) := by
      simp [Cursor.next, hc, hscan, byteLength]
    refine ⟨⟨t, ⟨position, position + byteLength lexeme⟩⟩ :: placed, ?_, ?_⟩
    · rw [Cursor.tokens_of_next_token hnext, htokens]
      rfl
    · rw [List.map_cons, hplaced]

/-- A text that continues neither a word nor a number. -/
def Delimited (cs : List Char) : Prop := ∀ c rest, cs = c :: rest → continuesWord c = false

theorem delimited_nil : Delimited [] := nofun

theorem delimited_cons {c : Char} {cs : List Char} (h : continuesWord c = false) :
    Delimited (c :: cs) := by
  rintro _ _ ⟨⟩
  exact h

section Characters

/-- The code points of the blanks. -/
def blankCodes : List Nat :=
  blankRanges.flatMap fun (first, last) => List.range' first (last + 1 - first)

theorem toNat_mem_blankCodes {c : Char} (h : isBlank c = true) : c.toNat ∈ blankCodes := by
  simp only [isBlank, inRanges, List.any_eq_true, Bool.and_eq_true, decide_eq_true_eq] at h
  obtain ⟨⟨first, last⟩, hmem, hfirst, hlast⟩ := h
  exact List.mem_flatMap.mpr ⟨_, hmem, List.mem_range'_1.mpr ⟨hfirst, by dsimp only at *; omega⟩⟩

/-- The characters that start a lexeme other than a word and a number. -/
def lexemeSigns : List Char := ['(', ')', '.', '=', '<', '>', '!', '\'', '{']

private theorem letterRanges_blankCodes : ∀ n ∈ blankCodes,
    letterRanges.any (fun (first, last) => first ≤ n && n ≤ last) = false := by
  decide +kernel

theorem isNumeral_of_isDigit {c : Char} (h : c.isDigit = true) : isNumeral c = true := by
  rw [isNumeral, if_pos (isDigit_lt h), h]

/-- A digit starts no other lexeme and is no blank. -/
theorem isDigit_spec {c : Char} (h : c.isDigit = true) : isBlank c = false ∧ c ∉ lexemeSigns :=
  forall_ascii (P := fun c => c.isDigit = true → isBlank c = false ∧ c ∉ lexemeSigns)
    (by decide +kernel) (isDigit_lt h) h

/-- A character that starts a word starts no other lexeme and is no blank. -/
theorem startsWord_spec {c : Char} (h : startsWord c = true) :
    isBlank c = false ∧ c.isDigit = false ∧ c ∉ lexemeSigns := by
  by_cases hlt : c.toNat < 128
  · exact forall_ascii (P := fun c => startsWord c = true →
      isBlank c = false ∧ c.isDigit = false ∧ c ∉ lexemeSigns) (by decide +kernel) hlt h
  · have hletter : inRanges letterRanges c = true := by
      simp only [startsWord, isLetter, if_neg hlt, Bool.or_eq_true, beq_iff_eq] at h
      rcases h with h | rfl
      · exact h
      · exact (hlt (by decide)).elim
    refine ⟨?_, ?_, ?_⟩
    · refine Bool.eq_false_iff.mpr fun hblank => ?_
      have hcode := letterRanges_blankCodes _ (toNat_mem_blankCodes hblank)
      exact Bool.false_ne_true (hcode.symm.trans hletter)
    · exact Bool.eq_false_iff.mpr fun hdigit => hlt (isDigit_lt hdigit)
    · intro hmem
      have hascii : lexemeSigns.all (·.toNat < 128) = true := by decide
      exact hlt (of_decide_eq_true (List.all_eq_true.mp hascii c hmem))

theorem not_isDigit_of_not_continuesWord {c : Char} (h : continuesWord c = false) :
    c.isDigit = false := by
  refine Bool.eq_false_iff.mpr fun hdigit => ?_
  simp [continuesWord, isNumeral_of_isDigit hdigit] at h

end Characters

/-- Whether a text is read as one word. -/
def Token.isWord (word : String) : Bool :=
  match word.toList with
  | c :: cs => startsWord c && cs.all continuesWord
  | [] => false

/-- A word that is read as a name. -/
structure Token.IsName (name : String) : Prop where
  isWord_eq : isWord name = true
  ofWord_eq : ofWord name = .identifier name

theorem Token.exists_cons_of_isWord {word : String} (h : isWord word = true) :
    ∃ c cs, word.toList = c :: cs ∧ startsWord c = true ∧ ∀ d ∈ cs, continuesWord d = true := by
  rw [isWord] at h
  split at h
  · rename_i c cs hcs
    obtain ⟨hc, hcont⟩ := Bool.and_eq_true_iff.mp h
    exact ⟨c, cs, hcs, hc, List.all_eq_true.mp hcont⟩
  · cases h

/-- Quoted text is read back as it was before its quotes and backslashes were escaped. -/
theorem Token.readQuoted?_escape (cs rest : List Char) :
    readQuoted? (Value.escape cs ++ '\'' :: rest) =
      some (cs, Value.escape cs ++ ['\''], rest) := by
  induction cs with
  | nil => rfl
  | cons c cs ih =>
    rw [Value.escape]
    split
    · rename_i hc
      rw [List.cons_append, List.cons_append, readQuoted?, ih]
      rfl
    · rename_i hc
      obtain ⟨hquote, hslash⟩ := not_or.mp hc
      rw [List.cons_append, readQuoted?, ih]
      · rfl
      · exact hquote
      · exact fun hc _ => hslash hc
      · exact fun _ _ hc _ => hslash hc

theorem Comparison.ofSymbol?_symbol (c : Comparison) : ofSymbol? c.symbol = some c := by
  cases c <;> rfl

namespace Lexes

variable {rest : List Char} {ts : List Token}

theorem space (h : Lexes rest ts) : Lexes (' ' :: rest) ts := .blank (by decide) h

theorem openGroup (h : Lexes rest ts) : Lexes ('(' :: rest) (.openGroup :: ts) :=
  .token (by decide) rfl h

theorem closeGroup (h : Lexes rest ts) : Lexes (')' :: rest) (.closeGroup :: ts) :=
  .token (by decide) rfl h

theorem separator (h : Lexes rest ts) : Lexes ('.' :: rest) (.separator :: ts) :=
  .token (by decide) rfl h

theorem word {w : String} (hw : isWord w = true) (hrest : Delimited rest) (h : Lexes rest ts) :
    Lexes (w.toList ++ rest) (ofWord w :: ts) := by
  obtain ⟨c, cs, hcs, hc, hcont⟩ := exists_cons_of_isWord hw
  obtain ⟨hblank, hdigit, hsign⟩ := startsWord_spec hc
  obtain ⟨htake, hdrop⟩ := takeWhile_append_of_head rest hcont hrest
  have hscan : scan c (cs ++ rest) = .token (ofWord w) (c :: cs) rest := by
    have hword : String.ofList (c :: cs) = w := by rw [← hcs, String.ofList_toList]
    simp only [lexemeSigns, List.mem_cons, List.not_mem_nil, not_or, or_false] at hsign
    simp [scan, hsign, hdigit, hc, scanWord, htake, hdrop, hword]
  rw [hcs, List.cons_append]
  exact .token hblank hscan h

theorem name {w : String} (hw : IsName w) (hrest : Delimited rest) (h : Lexes rest ts) :
    Lexes (w.toList ++ rest) (.identifier w :: ts) := by
  rw [← hw.ofWord_eq]
  exact word hw.isWord_eq hrest h

theorem natural {n : Nat} {i : Int64} (hi : int64OfInt? n = some i) (hrest : Delimited rest)
    (h : Lexes rest ts) : Lexes (decimal n ++ rest) (.constant (.int i) :: ts) := by
  obtain ⟨c, cs, hcs⟩ := List.exists_cons_of_ne_nil (decimal_ne_nil n)
  have hdigits : ∀ d ∈ c :: cs, d.isDigit = true := fun d hd => isDigit_of_mem_decimal (hcs ▸ hd)
  have hc : c.isDigit = true := hdigits c List.mem_cons_self
  obtain ⟨hblank, hsign⟩ := isDigit_spec hc
  have hcs' : ∀ d ∈ cs, d.isDigit = true := fun d hd => hdigits d (List.mem_cons_of_mem c hd)
  obtain ⟨htake, hdrop⟩ := takeWhile_append_of_head rest hcs' fun d ds hd =>
    not_isDigit_of_not_continuesWord (hrest d ds hd)
  have hscan : scan c (cs ++ rest) = .token (.constant (.int i)) (c :: cs) rest := by
    have hvalue : digitsValue (c :: cs) = n := by rw [← hcs, digitsValue_decimal]
    simp only [lexemeSigns, List.mem_cons, List.not_mem_nil, not_or, or_false] at hsign
    simp [scan, hsign, hc, scanInteger, htake, hdrop, hvalue, hi]
  rw [hcs, List.cons_append]
  exact .token hblank hscan h

private theorem sign {c : Comparison} (d : Char) (ds : List Char)
    (hsymbol : c.symbol.toList = d :: ds) (hd : d = '=' ∨ d = '<' ∨ d = '>' ∨ d = '!')
    (hlexeme : operatorLexeme d (ds ++ ' ' :: rest) = (d :: ds, ' ' :: rest)) (h : Lexes rest ts) :
    Lexes (c.symbol.toList ++ ' ' :: rest) (.operator c :: ts) := by
  have hc : Comparison.ofSymbol? (String.ofList (d :: ds)) = some c := by
    rw [← hsymbol, String.ofList_toList, Comparison.ofSymbol?_symbol]
  have hscan : scan d (ds ++ ' ' :: rest) = .token (.operator c) (d :: ds) (' ' :: rest) := by
    have hscan : scan d (ds ++ ' ' :: rest) = scanOperator d (ds ++ ' ' :: rest) := by
      rcases hd with rfl | rfl | rfl | rfl <;> rfl
    rw [hscan, scanOperator, hlexeme]
    simp only [hc]
  rw [hsymbol]
  refine .token ?_ hscan h.space
  rcases hd with rfl | rfl | rfl | rfl <;> decide

theorem operator (c : Comparison) (h : Lexes rest ts) :
    Lexes (c.symbol.toList ++ ' ' :: rest) (.operator c :: ts) := by
  cases c with
  | equals => exact sign '=' [] rfl (by decide) rfl h
  | notEqual => exact sign '!' ['='] rfl (by decide) rfl h
  | lessThan => exact sign '<' [] rfl (by decide) rfl h
  | greaterThan => exact sign '>' [] rfl (by decide) rfl h
  | lessOrEqual => exact sign '<' ['='] rfl (by decide) rfl h
  | greaterOrEqual => exact sign '>' ['='] rfl (by decide) rfl h
  | like =>
    exact word (by decide) (delimited_cons (by decide)) h.space

theorem connective (c : Connective) (hrest : Delimited rest) (h : Lexes rest ts) :
    Lexes (c.keyword.toList ++ rest) (.connective c :: ts) := by
  cases c with
  | and => exact word (by decide) hrest h
  | or => exact word (by decide) hrest h

theorem quote (s : String) (h : Lexes rest ts) :
    Lexes ((Value.quote s).toList ++ rest) (.constant (.text s) :: ts) := by
  have hscan : scan '\'' (Value.escape s.toList ++ '\'' :: rest) =
      .token (.constant (.text s)) ('\'' :: (Value.escape s.toList ++ ['\''])) rest := by
    rw [scan]
    simp [scanString, readQuoted?_escape]
  rw [Value.quote, String.toList_ofList, List.cons_append, List.append_assoc]
  exact .token (by decide) hscan h

end Lexes

end FilterLang
