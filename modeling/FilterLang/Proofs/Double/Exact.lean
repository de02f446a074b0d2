import FilterLang.Proofs.Double.Rounding
import FilterLang.Value.Order

/-! The exact order of doubles and integers.

A number is a whole number of units of the least positive double (`amount`), and so is an integer.
Both comparisons are the order of these whole numbers: `compare?_number` among doubles and
`compareInt?_number` across the kinds. -/

namespace FilterLang.Double

/-- A number in units of the least positive double; an infinity lies where its rank places it. -/
def amount (negative : Bool) (rank : Rank) : Int := if negative then -units rank else units rank

theorem compare_congr {a b c d : Int} (hlt : a < b ↔ c < d) (hgt : b < a ↔ d < c) :
    compare a b = compare c d := by
  rcases Int.lt_trichotomy a b with h | rfl | h
  · rw [compare_lt_iff_lt.mpr h, compare_lt_iff_lt.mpr (hlt.mp h)]
  · have heq : c = d := by
      have hlt := mt hlt.mpr (Int.lt_irrefl a)
      have hgt := mt hgt.mpr (Int.lt_irrefl a)
      omega
    rw [compare_eq_iff_eq.mpr rfl, compare_eq_iff_eq.mpr heq]
  · rw [compare_gt_iff_gt.mpr h, compare_gt_iff_gt.mpr (hgt.mp h)]

/-- Ranks and magnitudes are in the same order, the sign included. -/
theorem key_lt_key_iff {s s' : Bool} {r r' : Rank} :
    key s r < key s' r' ↔ amount s r < amount s' r' := by
  have hlt : units r < units r' ↔ r.val < r'.val := units_strictMono.lt_iff_lt
  have hgt : units r' < units r ↔ r'.val < r.val := units_strictMono.lt_iff_lt
  have hzero : units 0 = 0 := rfl
  have hpos : 0 < units r ↔ 0 < r.val := units_strictMono.lt_iff_lt (a := 0)
  have hpos' : 0 < units r' ↔ 0 < r'.val := units_strictMono.lt_iff_lt (a := 0)
  cases s <;> cases s' <;> simp only [key, amount, if_true, if_false, Bool.false_eq_true] <;> omega

theorem compare?_number (s s' : Bool) (r r' : Rank) :
    (number s r).compare? (number s' r') = some (compare (amount s r) (amount s' r')) :=
  congrArg some (compare_congr key_lt_key_iff key_lt_key_iff)

/-- A whole number against a quotient: the whole part decides, and then the rest. -/
theorem compare_mul_div (i : Int) (u : Nat) {d : Nat} (hd : 0 < d) :
    compare (i * d) (u : Int) = (compare i (u / d)).then (if u % d = 0 then .eq else .lt) := by
  have hsplit : (u : Int) = (u / d : Nat) * (d : Int) + (u % d : Nat) := by
    exact_mod_cast (Nat.div_add_mod' u d).symm
  have hrest : u % d < d := Nat.mod_lt u hd
  rw [← Int.natCast_ediv]
  generalize u / d = w at *
  generalize u % d = f at *
  rcases Int.lt_trichotomy i w with h | rfl | h
  · have hle : (i + 1) * d ≤ w * d := Int.mul_le_mul_of_nonneg_right h (by omega)
    rw [Int.add_mul] at hle
    rw [compare_lt_iff_lt.mpr h, compare_lt_iff_lt.mpr (by omega)]
    rfl
  · rw [compare_eq_iff_eq.mpr rfl]
    by_cases hf : f = 0
    · rw [if_pos hf, compare_eq_iff_eq.mpr (by omega)]
      rfl
    · rw [if_neg hf, compare_lt_iff_lt.mpr (by omega)]
      rfl
  · have hle : ((w : Int) + 1) * d ≤ i * d := Int.mul_le_mul_of_nonneg_right h (by omega)
    rw [Int.add_mul] at hle
    rw [compare_gt_iff_gt.mpr h, compare_gt_iff_gt.mpr (by omega)]
    rfl

theorem compare_neg_swap (a b : Int) : compare (-a) (-b) = (compare a b).swap := by
  rw [Int.compare_swap]
  exact compare_congr (by omega) (by omega)

/-- The whole part of a number and the sign of the rest decide how an integer compares with it. -/
theorem compare_truncate (i : Int) (s : Bool) (r : Rank) :
    (compare i (number s r).truncate).then (number s r).zeroVersusFraction =
      compare (i * one) (amount s r) := by
  cases s with
  | false => exact (compare_mul_div i (units r) one_pos).symm
  | true =>
    have hneg := congrArg Ordering.swap (compare_mul_div (-i) (units r) one_pos)
    rw [← compare_neg_swap, Int.neg_mul, Int.neg_neg, Ordering.swap_then, ← compare_neg_swap,
      Int.neg_neg] at hneg
    simp only [amount, truncate, zeroVersusFraction, if_true]
    rw [hneg]
    split <;> rfl

/-- The bound of the integers, as a double and as an amount. -/
theorem intBound_eq : ∃ rank, intBound = .number false rank ∧ units rank = 2 ^ 63 * one :=
  ⟨⟨0x43e0000000000000, by decide⟩, by decide +kernel, by decide +kernel⟩

theorem compare_int64 (i j : Int64) : compare i j = compare i.toInt j.toInt := by
  simp only [compare, compareOfLessAndEq, Int64.lt_iff_toInt_lt, Int64.toInt_inj]

/-- Between the bounds the whole part of a number is an integer of 64 bits. -/
theorem toInt_ofInt_truncate {s : Bool} {r : Rank} (hlow : -(2 ^ 63 * one : Int) ≤ amount s r)
    (hhigh : amount s r < 2 ^ 63 * one) :
    (Int64.ofInt (number s r).truncate).toInt = (number s r).truncate := by
  suffices h : -2 ^ 63 ≤ (number s r).truncate ∧ (number s r).truncate < 2 ^ 63 from
    Int64.toInt_ofInt_of_le h.1 h.2
  have hwhole : (units r : Int) / one = (units r / one : Nat) := (Int.natCast_ediv _ _).symm
  cases s with
  | false =>
    have hlt : units r / one < 2 ^ 63 := (Nat.div_lt_iff_lt_mul one_pos).mpr (by
      simp only [amount, Bool.false_eq_true, if_false] at hhigh
      exact_mod_cast hhigh)
    generalize units r / one = w at hwhole hlt
    simp only [truncate, Bool.false_eq_true, if_false, hwhole]
    omega
  | true =>
    have hle : units r / one ≤ 2 ^ 63 := Nat.div_le_of_le_mul (by
      simp only [amount, if_true, Int.neg_le_neg_iff] at hlow
      rw [Nat.mul_comm]
      exact_mod_cast hlow)
    generalize units r / one = w at hwhole hle
    simp only [truncate, if_true, hwhole]
    omega

theorem compareInt?_number (i : Int64) (s : Bool) (r : Rank) :
    compareInt? i (number s r) = some (compare (i.toInt * one) (amount s r)) := by
  obtain ⟨bound, hbound, hunits⟩ := intBound_eq
  have hhigh : amount false bound = 2 ^ 63 * one := by
    simp only [amount, Bool.false_eq_true, if_false, hunits]
    exact_mod_cast rfl
  have hlow : amount true bound = -(2 ^ 63 * one) := by
    simp only [amount, if_true, hunits]
    exact_mod_cast rfl
  have hone : (0 : Int) < one := Int.natCast_pos.mpr one_pos
  rw [compareInt?, hbound, neg, compare?_number, compare?_number, hhigh, Bool.not_false, hlow]
  dsimp only
  split
  · rename_i h
    have hge : 2 ^ 63 * (one : Int) ≤ amount s r := Int.not_lt.mp (mt compare_lt_iff_lt.mpr h)
    have hlt : i.toInt * one < 2 ^ 63 * one := Int.mul_lt_mul_of_pos_right i.toInt_lt hone
    rw [compare_lt_iff_lt.mpr (hlt.trans_le hge)]
  · rename_i h
    have h := compare_lt_iff_lt.mp (Decidable.not_not.mp h)
    split
    · rename_i h'
      have hlt := compare_lt_iff_lt.mp h'
      have hle : -2 ^ 63 * (one : Int) ≤ i.toInt * one :=
        Int.mul_le_mul_of_nonneg_right i.le_toInt hone.le
      rw [compare_gt_iff_gt.mpr]
      omega
    · rename_i h'
      have hge := Int.not_lt.mp (mt compare_lt_iff_lt.mpr h')
      rw [compare_int64, toInt_ofInt_truncate hge h, compare_truncate]

end FilterLang.Double
