import FilterLang.Proofs.Token.Reading

/-! What a scanner may answer.

Only words are read as names, those that are not reserved, and an error names no character but the
one with which its lexeme starts (`scan_sound`). -/

namespace FilterLang.Token

/-- The words that are no names, in any case. -/
def reservedWords : List String := ["and", "or", "null", "like"]

/-- A word that is none of the reserved ones is a name. -/
theorem ofWord_cases (word : String) :
    (∀ name, ofWord word ≠ .identifier name) ∨
      ofWord word = .identifier word ∧
        ∀ reserved ∈ reservedWords, Text.sameWord word reserved = false := by
  rw [ofWord]
  split
  · exact .inl (by simp)
  rename_i hand
  split
  · exact .inl (by simp)
  rename_i hor
  split
  · exact .inl (by simp)
  rename_i hnull
  split
  · exact .inl (by simp)
  rename_i hsymbol
  have hlike : ¬Text.sameWord word "like" = true := by
    rw [Text.sameWord_comm]
    exact List.find?_eq_none.mp hsymbol .like (by decide)
  refine .inr ⟨rfl, ?_⟩
  simp only [reservedWords, List.forall_mem_cons, Bool.eq_false_iff]
  exact ⟨hand, hor, hnull, hlike, List.forall_mem_nil _⟩

theorem eq_of_ofWord {word name : String} (h : ofWord word = .identifier name) : name = word := by
  rcases ofWord_cases word with hne | ⟨hword, -⟩
  · exact (hne name h).elim
  · exact Token.identifier.inj (h.symm.trans hword)

theorem IsName.not_reserved {name : String} (h : IsName name) :
    ∀ word ∈ reservedWords, Text.sameWord name word = false := by
  rcases ofWord_cases name with hne | ⟨-, hreserved⟩
  · exact (hne name h.ofWord_eq).elim
  · exact hreserved

/-- An answer to a text with a given first character. -/
inductive Scan.Sound (c : Char) : Scan → Prop
  | token {t : Token} (h : ∀ name, t = .identifier name → IsName name) (lexeme rest : List Char) :
    Sound c (.token t lexeme rest)
  | fault {cause : LexError.Cause} (h : ∀ d, cause = .unexpectedCharacter d → d = c) :
    Sound c (.fault cause)

theorem scanWord_sound {c : Char} (hc : startsWord c = true) (cs : List Char) :
    (scanWord c cs).Sound c := by
  refine .token (fun name hname => ?_) _ _
  obtain rfl := eq_of_ofWord hname
  refine ⟨?_, hname⟩
  rw [isWord, String.toList_ofList]
  dsimp only
  rw [hc, Bool.true_and, List.all_takeWhile]

theorem scanInteger_sound (c : Char) (cs : List Char) : (scanInteger c cs).Sound c := by
  rw [scanInteger]
  split
  · exact .token (by simp) _ _
  · exact .fault (by simp)

theorem scanOperator_sound (c : Char) (cs : List Char) : (scanOperator c cs).Sound c := by
  rw [scanOperator]
  dsimp only
  split
  · exact .token (by simp) _ _
  · exact .fault (by simp)

theorem scanString_sound (c : Char) (cs : List Char) : (scanString cs).Sound c := by
  rw [scanString]
  split
  · exact .token (by simp) _ _
  · exact .fault (by simp)

theorem scanParameter_sound (c : Char) (cs : List Char) : (scanParameter cs).Sound c := by
  rw [scanParameter]
  split
  · split
    · exact .fault (by simp)
    · exact .token (by simp) _ _
  · exact .fault (by simp)

theorem scan_sound (c : Char) (cs : List Char) : (scan c cs).Sound c := by
  rw [scan]
  split
  · exact .token (by simp) _ _
  split
  · exact .token (by simp) _ _
  split
  · exact .token (by simp) _ _
  split
  · exact scanOperator_sound c cs
  split
  · exact scanString_sound c cs
  split
  · exact scanParameter_sound c cs
  split
  · exact scanInteger_sound c cs
  split
  · rename_i hc
    exact scanWord_sound hc cs
  · exact .fault (by simp)

theorem Scan.Sound.isName {c : Char} {name : String} {lexeme rest : List Char}
    (h : (Scan.token (.identifier name) lexeme rest).Sound c) : IsName name := by
  cases h with
  | token h => exact h name rfl

theorem Scan.Sound.eq_of_unexpected {c d : Char}
    (h : (Scan.fault (.unexpectedCharacter d)).Sound c) : d = c := by
  cases h with
  | fault h => exact h d rfl

end FilterLang.Token
