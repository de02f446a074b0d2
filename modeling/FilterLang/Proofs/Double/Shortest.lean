import FilterLang.Proofs.Double.Rounding
import FilterLang.Proofs.Text.Digits

/-! The shortest decimal of a magnitude is a decimal that its rank takes.

The grid of 17 digits is finer than the distance between neighbours, so that one of its two points
around a magnitude is taken (`nearestOnGrid?_ne_none`), and whatever grid wins, its point is taken.
Main statement: `shortest_takes`. -/

namespace FilterLang.Double

open Text

theorem powerOfTen_of_nonneg (n : Nat) : powerOfTen n = (10 ^ n * one, 1) := by
  rw [powerOfTen, if_pos (Int.natCast_nonneg n), Int.toNat_natCast]
  rfl

theorem powerOfTen_of_neg {n : Nat} (h : 0 < n) : powerOfTen (-n) = (one, 10 ^ n) := by
  rw [powerOfTen, if_neg (by omega), Int.neg_neg, Int.toNat_natCast]
  rfl

theorem powerOfTen_pos (e : Int) : 0 < (powerOfTen e).1 ∧ 0 < (powerOfTen e).2 := by
  have hone := one_pos
  rcases Int.lt_or_le e 0 with he | he
  · obtain ⟨n, rfl⟩ : ∃ n : Nat, e = -n := ⟨e.natAbs, by omega⟩
    rw [powerOfTen_of_neg (by omega)]
    dsimp only
    exact ⟨hone, by positivity⟩
  · obtain ⟨n, rfl⟩ := Int.eq_ofNat_of_zero_le he
    rw [powerOfTen_of_nonneg]
    exact ⟨by positivity, by positivity⟩

/-- The power of a sum is the product of the powers. -/
theorem powerOfTen_add (e : Int) (k : Nat) :
    (powerOfTen (e + k)).1 * (powerOfTen e).2 =
      10 ^ k * (powerOfTen e).1 * (powerOfTen (e + k)).2 := by
  rcases Int.lt_or_le e 0 with he | he
  · obtain ⟨n, rfl⟩ : ∃ n : Nat, e = -n := ⟨e.natAbs, by omega⟩
    rw [powerOfTen_of_neg (by omega)]
    rcases Nat.lt_or_ge k n with hk | hk
    · obtain ⟨j, rfl⟩ := Nat.exists_eq_add_of_lt hk
      have hsum : -((k + j + 1 : Nat) : Int) + k = -((j + 1 : Nat) : Int) := by omega
      rw [hsum, powerOfTen_of_neg (by omega)]
      ring
    · obtain ⟨j, rfl⟩ := Nat.exists_eq_add_of_le hk
      have hsum : -(n : Int) + ((n + j : Nat) : Int) = (j : Nat) := by omega
      rw [hsum, powerOfTen_of_nonneg]
      ring
  · obtain ⟨n, rfl⟩ := Int.eq_ofNat_of_zero_le he
    rw [← Int.natCast_add, powerOfTen_of_nonneg, powerOfTen_of_nonneg]
    ring

/-- Whether a rank takes a number depends on its value alone. -/
theorem Takes.congr {rank num den num' den' : Nat} (hden : 0 < den) (hden' : 0 < den')
    (h : num * den' = num' * den) (ht : Takes rank num den) : Takes rank num' den' := by
  have hscale : ∀ w, w * den' * den = w * den * den' := fun w => by ring
  have hnum : 2 * num' * den = 2 * num * den' := by linarith
  constructor
  · refine Nat.le_of_mul_le_mul_right ?_ hden
    rw [hscale, hnum]
    exact Nat.mul_le_mul_right den' ht.low
  · refine Nat.le_of_mul_le_mul_right ?_ hden
    rw [hscale, hnum]
    exact Nat.mul_le_mul_right den' ht.high
  · rintro (heq | heq)
    · refine ht.even_of_end (.inl (Nat.eq_of_mul_eq_mul_right hden' ?_))
      rw [← hscale, heq, hnum]
    · refine ht.even_of_end (.inr (Nat.eq_of_mul_eq_mul_right hden' ?_))
      rw [← hscale, ← heq, hnum]

/-- A rank takes a decimal with zeros at its end as it takes it without. -/
theorem takes_shift {rank digits : Nat} (e : Int) (k : Nat) :
    Takes rank (digits * 10 ^ k * (powerOfTen e).1) (powerOfTen e).2 ↔
      Takes rank (digits * (powerOfTen (e + k)).1) (powerOfTen (e + k)).2 := by
  have hvalue : digits * 10 ^ k * (powerOfTen e).1 * (powerOfTen (e + k)).2 =
      digits * (powerOfTen (e + k)).1 * (powerOfTen e).2 := by
    rw [Nat.mul_assoc digits (powerOfTen (e + k)).1, powerOfTen_add]
    ring
  have hden := (powerOfTen_pos e).2
  have hden' := (powerOfTen_pos (e + k)).2
  exact ⟨fun h => h.congr hden hden' hvalue, fun h => h.congr hden' hden hvalue.symm⟩

theorem powerOfTen_le_of_scaled {u c k : Nat} (hc : 0 < c) (h : 10 ^ k * one ≤ u * 10 ^ c) :
    (powerOfTen (-c + k)).1 ≤ u * (powerOfTen (-c + k)).2 := by
  have hadd := powerOfTen_add (-c) k
  rw [powerOfTen_of_neg hc] at hadd
  dsimp only at hadd
  generalize one = o at *
  refine Nat.le_of_mul_le_mul_right ?_ (by positivity : 0 < 10 ^ c)
  calc (powerOfTen (-c + k)).1 * 10 ^ c
      = 10 ^ k * o * (powerOfTen (-c + k)).2 := hadd
    _ ≤ u * 10 ^ c * (powerOfTen (-c + k)).2 := Nat.mul_le_mul_right _ h
    _ = u * (powerOfTen (-c + k)).2 * 10 ^ c := Nat.mul_right_comm ..

/-- The magnitude is at least the power of ten below its decimal point. -/
theorem powerOfTen_decimalPoint_le {rank : Nat} (h : 0 < rank) :
    (powerOfTen (decimalPoint rank - 1)).1 ≤
      units rank * (powerOfTen (decimalPoint rank - 1)).2 := by
  have hunits := units_pos h
  obtain ⟨c, hc, hpow⟩ : ∃ c, c = 400 ∧ one ≤ Nat.pow 10 c := ⟨400, rfl, by decide +kernel⟩
  have hone : one ≤ units rank * Nat.pow 10 c := hpow.trans (Nat.le_mul_of_pos_left _ hunits)
  have hscaled : 0 < units rank * Nat.pow 10 c / one := Nat.div_pos hone one_pos
  have hle := (Nat.le_div_iff_mul_le one_pos).mp (length_decimal_spec hscaled).1
  have hlength := List.length_pos_iff.mpr (decimal_ne_nil (units rank * Nat.pow 10 c / one))
  have hpoint : decimalPoint rank - 1 =
      -c + ((decimal (units rank * Nat.pow 10 c / one)).length - 1 : Nat) := by
    rw [decimalPoint, ← hc]
    change ((decimal _).length : Int) - 400 - 1 = _
    omega
  rw [hpoint]
  exact powerOfTen_le_of_scaled (by omega) hle

/-- Of the two points of the grid of 17 digits around a magnitude, its rank takes one. -/
theorem takes_below_or_above {rank : Nat} (h : 0 < rank) {num den : Nat} (hnum : 0 < num)
    (hden : 0 < den) (hfine : 10 ^ 16 * num ≤ units rank * den) :
    Takes rank (units rank * den / num * num) den ∨
      Takes rank ((units rank * den / num + 1) * num) den := by
  have hneighbours : 2 * (units rank * den) + units (rank - 1) * den * 10 ^ 16 <
      units (rank + 1) * den * 10 ^ 16 := by
    linarith [Nat.mul_lt_mul_of_pos_right (units_neighbours h) hden]
  have hbelow := Nat.div_add_mod' (units rank * den) num
  have hrest := Nat.mod_lt (units rank * den) hnum
  have hsucc : (units rank * den / num + 1) * num = units rank * den / num * num + num :=
    Nat.succ_mul _ _
  rw [hsucc]
  generalize units rank * den / num * num = below at *
  generalize units rank * den % num = rest at *
  have hlow : (units (rank - 1) + units rank) * den = units (rank - 1) * den + units rank * den :=
    Nat.add_mul ..
  have hhigh : (units rank + units (rank + 1)) * den = units rank * den + units (rank + 1) * den :=
    Nat.add_mul ..
  have hprev : units (rank - 1) * den < units rank * den :=
    Nat.mul_lt_mul_of_pos_right (units_strictMono (by omega)) hden
  have hnext : units rank * den < units (rank + 1) * den :=
    Nat.mul_lt_mul_of_pos_right (units_strictMono (by omega)) hden
  by_cases hnear : (units (rank - 1) + units rank) * den < 2 * below
  · left
    constructor <;> omega
  · right
    constructor <;> omega

theorem takes_of_nearestOnGrid? {tie : Tie} {rank multiple : Nat} {e : Int}
    (h : nearestOnGrid? tie rank e = some multiple) :
    Takes rank (multiple * (powerOfTen e).1) (powerOfTen e).2 := by
  rw [nearestOnGrid?] at h
  dsimp only at h
  rw [← roundsTo_iff]
  generalize units rank * (powerOfTen e).2 / (powerOfTen e).1 = below at *
  cases hbelow : roundsTo rank (below * (powerOfTen e).1) (powerOfTen e).2 <;>
    cases habove : roundsTo rank ((below + 1) * (powerOfTen e).1) (powerOfTen e).2 <;>
    simp only [hbelow, habove] at h
  · cases h
  · cases h
    exact habove
  · cases h
    exact hbelow
  · split at h
    · cases h
      exact hbelow
    · cases h
      exact habove
    · split at h
      · cases h
        exact habove
      · cases h
        rcases Nat.mod_two_eq_zero_or_one below with heven | hodd
        · rwa [heven, Nat.add_zero]
        · rwa [hodd]

/-- A grid with more than `10 ^ 16` points up to a magnitude has one that its rank takes. -/
theorem nearestOnGrid?_ne_none (tie : Tie) {rank : Nat} (h : 0 < rank) {e : Int}
    (hle : (powerOfTen (e + (16 : Nat))).1 ≤ units rank * (powerOfTen (e + (16 : Nat))).2) :
    nearestOnGrid? tie rank e ≠ none := by
  obtain ⟨hnum, hden⟩ := powerOfTen_pos e
  have hadd := powerOfTen_add e 16
  have hfine : 10 ^ 16 * (powerOfTen e).1 ≤ units rank * (powerOfTen e).2 := by
    refine Nat.le_of_mul_le_mul_right ?_ (powerOfTen_pos (e + (16 : Nat))).2
    rw [← hadd, Nat.mul_right_comm]
    exact Nat.mul_le_mul_right _ hle
  have htaken := takes_below_or_above h hnum hden hfine
  simp only [← roundsTo_iff] at htaken
  rw [nearestOnGrid?]
  dsimp only
  generalize units rank * (powerOfTen e).2 / (powerOfTen e).1 = below at *
  split
  · rename_i hbelow habove
    rw [hbelow, habove] at htaken
    simp at htaken
  · nofun
  · nofun
  · split <;> try split
    all_goals nofun

/-- The shortest decimal stands for a multiple of a power of ten that the rank takes. -/
theorem shortest_takes (tie : Tie) {rank : Nat} (h : 0 < rank) :
    ∃ multiple e, shortest tie rank = Decimal.ofMultiple multiple e ∧
      Takes rank (multiple * (powerOfTen e).1) (powerOfTen e).2 := by
  have hfound : ((List.range' 1 17).findSome? (withLength? tie rank)).isSome = true := by
    rw [List.findSome?_isSome_iff]
    refine ⟨17, by decide, ?_⟩
    rw [withLength?, Option.isSome_map, Option.isSome_iff_ne_none]
    refine nearestOnGrid?_ne_none tie h ?_
    have hpoint : decimalPoint rank - (17 : Nat) + (16 : Nat) = decimalPoint rank - 1 := by omega
    rw [hpoint]
    exact powerOfTen_decimalPoint_le h
  obtain ⟨d, hd⟩ := Option.isSome_iff_exists.mp hfound
  obtain ⟨length, -, hlength⟩ := List.exists_of_findSome?_eq_some hd
  rw [withLength?, Option.map_eq_some_iff] at hlength
  obtain ⟨multiple, hmultiple, rfl⟩ := hlength
  refine ⟨multiple, _, ?_, takes_of_nearestOnGrid? hmultiple⟩
  rw [shortest, hd, Option.getD_some]

/-- A text is its beginning up to the last character other than `0`, and zeros. -/
theorem exists_replicate_zero (cs : List Char) :
    ∃ k : Nat, cs = (cs.reverse.dropWhile (· == '0')).reverse ++ List.replicate k '0' := by
  refine ⟨(cs.reverse.takeWhile (· == '0')).length, ?_⟩
  have hzeros : cs.reverse.takeWhile (· == '0') =
      List.replicate (cs.reverse.takeWhile (· == '0')).length '0' := by
    refine List.eq_replicate_of_mem fun c hc => ?_
    exact beq_iff_eq.mp (List.all_eq_true.mp List.all_takeWhile c hc)
  rw [← List.reverse_replicate, ← List.reverse_append, ← hzeros, List.takeWhile_append_dropWhile,
    List.reverse_reverse]

/-- A decimal is written with the digits of its multiple, of which the zeros at the end move the
point. -/
theorem ofMultiple_spec {multiple : Nat} (h : 0 < multiple) (e : Int) :
    ∃ k : Nat, multiple = digitsValue (Decimal.ofMultiple multiple e).digits * 10 ^ k ∧
      (Decimal.ofMultiple multiple e).point - (Decimal.ofMultiple multiple e).digits.length =
        e + k ∧
      (Decimal.ofMultiple multiple e).digits ≠ [] ∧
      ∀ c ∈ (Decimal.ofMultiple multiple e).digits, c.isDigit = true := by
  obtain ⟨k, hk⟩ := exists_replicate_zero (decimal multiple)
  have hdigits : (Decimal.ofMultiple multiple e).digits =
      ((decimal multiple).reverse.dropWhile (· == '0')).reverse := rfl
  have hpoint : (Decimal.ofMultiple multiple e).point = e + (decimal multiple).length := rfl
  rw [hdigits, hpoint]
  generalize ((decimal multiple).reverse.dropWhile (· == '0')).reverse = digits at *
  have hvalue : multiple = digitsValue digits * 10 ^ k := by
    rw [← digitsValue_append_replicate, ← hk, digitsValue_decimal]
  refine ⟨k, hvalue, ?_, ?_, ?_⟩
  · rw [hk, List.length_append, List.length_replicate]
    omega
  · rintro rfl
    rw [hvalue] at h
    simp [digitsValue] at h
  · intro c hc
    exact isDigit_of_mem_decimal (hk ▸ List.mem_append_left _ hc)

end FilterLang.Double
