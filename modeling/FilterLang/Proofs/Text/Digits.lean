import Mathlib.Algebra.Group.Nat.Defs
import FilterLang.Text.Digits

/-! Decimal digits give back the number they are written for. -/

namespace FilterLang.Text

theorem digitsValue_eq_ofDigitChars (cs : List Char) :
    digitsValue cs = Nat.ofDigitChars 10 cs 0 := by
  simp only [digitsValue, Nat.ofDigitChars, Nat.mul_comm]

@[simp] theorem digitsValue_decimal (n : Nat) : digitsValue (decimal n) = n := by
  rw [digitsValue_eq_ofDigitChars, decimal, Nat.ofDigitChars_ten_toDigits]

theorem isDigit_of_mem_decimal {n : Nat} {c : Char} (h : c ∈ decimal n) : c.isDigit :=
  Nat.isDigit_of_mem_toDigits (by decide) (by decide) h

theorem decimal_ne_nil (n : Nat) : decimal n ≠ [] := Nat.toDigits_ne_nil

theorem length_decimal_spec {n : Nat} (h : 0 < n) :
    10 ^ ((decimal n).length - 1) ≤ n ∧ n < 10 ^ (decimal n).length := by
  have hpos : 0 < (decimal n).length := Nat.length_toDigits_pos
  refine ⟨?_, (Nat.length_toDigits_le_iff (by decide) hpos).mp (Nat.le_refl _)⟩
  by_cases hone : (decimal n).length - 1 = 0
  · rw [hone]
    exact h
  · refine Nat.le_of_not_lt fun hlt => ?_
    have hshort : (decimal n).length ≤ (decimal n).length - 1 :=
      (Nat.length_toDigits_le_iff (by decide) (Nat.pos_of_ne_zero hone)).mpr hlt
    omega

/-- Digits in front of zeros are worth as many powers of ten more. -/
theorem digitsValue_append_replicate (cs : List Char) (k : Nat) :
    digitsValue (cs ++ List.replicate k '0') = digitsValue cs * 10 ^ k := by
  rw [digitsValue_eq_ofDigitChars, Nat.ofDigitChars_append, Nat.ofDigitChars_replicate_zero,
    digitsValue_eq_ofDigitChars, Nat.mul_comm]

theorem digitsValue_replicate_append (k : Nat) (cs : List Char) :
    digitsValue (List.replicate k '0' ++ cs) = digitsValue cs := by
  rw [digitsValue_eq_ofDigitChars, Nat.ofDigitChars_append, Nat.ofDigitChars_replicate_zero,
    Nat.mul_zero, digitsValue_eq_ofDigitChars]

theorem length_padded {width n : Nat} (hwidth : 0 < width) (h : n < 10 ^ width) :
    (padded width n).length = width := by
  have hlength : (decimal n).length ≤ width := (Nat.length_toDigits_le_iff (by decide) hwidth).mpr h
  rw [padded, List.length_append, List.length_replicate]
  omega

@[simp] theorem digitsValue_padded (width n : Nat) : digitsValue (padded width n) = n := by
  rw [padded, digitsValue_replicate_append, digitsValue_decimal]

theorem isDigit_of_mem_padded {width n : Nat} {c : Char} (h : c ∈ padded width n) : c.isDigit := by
  rcases List.mem_append.mp h with h | h
  · rw [List.eq_of_mem_replicate h]
    rfl
  · exact isDigit_of_mem_decimal h

theorem padded_ne_nil (width n : Nat) : padded width n ≠ [] :=
  List.append_ne_nil_of_right_ne_nil _ (decimal_ne_nil n)

/-- The longest run of characters from the front, where what follows starts with another. -/
theorem takeWhile_append_of_head {p : Char → Bool} {cs : List Char} (rest : List Char)
    (h : ∀ c ∈ cs, p c = true) (hrest : ∀ c rest', rest = c :: rest' → p c = false) :
    (cs ++ rest).takeWhile p = cs ∧ (cs ++ rest).dropWhile p = rest := by
  rw [List.takeWhile_append_of_pos h, List.dropWhile_append_of_pos h]
  rcases rest with _ | ⟨c, rest⟩
  · simp
  · simp [hrest c rest rfl]

/-- Runs of characters are the same where what follows them starts with others. -/
theorem append_inj_of_head {p : Char → Bool} {cs cs' rest rest' : List Char}
    (h : ∀ c ∈ cs, p c = true) (h' : ∀ c ∈ cs', p c = true)
    (hrest : ∀ c tail, rest = c :: tail → p c = false)
    (hrest' : ∀ c tail, rest' = c :: tail → p c = false) (heq : cs ++ rest = cs' ++ rest') :
    cs = cs' ∧ rest = rest' := by
  obtain ⟨htake, hdrop⟩ := takeWhile_append_of_head rest h hrest
  obtain ⟨htake', hdrop'⟩ := takeWhile_append_of_head rest' h' hrest'
  exact ⟨by rw [← htake, heq, htake'], by rw [← hdrop, heq, hdrop']⟩

end FilterLang.Text
