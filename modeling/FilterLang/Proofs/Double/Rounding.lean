import Mathlib.Tactic.Linarith
import Mathlib.Tactic.Ring
import FilterLang.Double.Rounding
import FilterLang.Double.Shortest

/-! Rounding finds the one magnitude whose interval holds a number.

A rank is `k` runs of `firstNormal` ranks and a significand `m`, and its magnitude is `m * 2 ^ k`
units (`units_scaled`). The intervals of two ranks meet in no number that both of them take
(`Takes.unique`), and the rank that rounding computes takes the number
(`exists_takes_roundSignificant`). Main statement: `ofRatio_of_takes`. -/

namespace FilterLang.Double

theorem one_pos : 0 < one := by decide +kernel

theorem units_of_lt {r : Nat} (h : r < 2 * firstNormal) : units r = r := by
  rw [units]
  by_cases hlt : r < firstNormal
  · exact if_pos hlt
  · rw [if_neg hlt]
    have hquotient : r / firstNormal = 1 := by simp only [firstNormal] at *; omega
    have hrest : firstNormal + r % firstNormal = r := by simp only [firstNormal] at *; omega
    rw [hquotient, hrest]
    exact Nat.mul_one r

/-- The magnitude of a rank by its significand and the scale of it. -/
theorem units_scaled {k m : Nat} (hm : firstNormal ≤ m) (hm' : m ≤ 2 * firstNormal) :
    units (k * firstNormal + m) = m * 2 ^ k := by
  have hge : ¬k * firstNormal + m < firstNormal := by omega
  rw [units, if_neg hge]
  simp only [firstNormal] at hm hm' ⊢
  rcases Nat.lt_or_eq_of_le hm' with hlt | rfl
  · have hquotient : (k * 0x10000000000000 + m) / 0x10000000000000 = k + 1 := by omega
    have hrest : (k * 0x10000000000000 + m) % 0x10000000000000 = m - 0x10000000000000 := by omega
    rw [hquotient, hrest, Nat.add_sub_of_le hm, Nat.add_sub_cancel]
    rfl
  · have hquotient : (k * 0x10000000000000 + 2 * 0x10000000000000) / 0x10000000000000 = k + 2 := by
      omega
    have hrest : (k * 0x10000000000000 + 2 * 0x10000000000000) % 0x10000000000000 = 0 := by omega
    rw [hquotient, hrest]
    change (_ + 0) * 2 ^ (k + 1) = _
    rw [Nat.pow_succ]
    omega

/-- A significand and a scale: below the first normal magnitude there is one scale only. -/
structure Scaled (k m : Nat) : Prop where
  le : m ≤ 2 * firstNormal
  normal : firstNormal ≤ m ∨ k = 0

theorem Scaled.units_eq {k m : Nat} (h : Scaled k m) : units (k * firstNormal + m) = m * 2 ^ k := by
  by_cases hm : firstNormal ≤ m
  · exact units_scaled hm h.le
  · obtain rfl : k = 0 := h.normal.resolve_left hm
    rw [Nat.zero_mul, Nat.zero_add, Nat.pow_zero, Nat.mul_one]
    exact units_of_lt (by omega)

theorem exists_scaled (r : Nat) :
    ∃ k m, Scaled k m ∧ m < 2 * firstNormal ∧ r = k * firstNormal + m := by
  by_cases h : r < 2 * firstNormal
  · exact ⟨0, r, ⟨h.le, .inr rfl⟩, h, by omega⟩
  · simp only [firstNormal] at h
    refine ⟨r / firstNormal - 1, firstNormal + r % firstNormal, ⟨?_, ?_⟩, ?_, ?_⟩
    all_goals simp only [firstNormal]; omega

theorem units_succ {k m : Nat} (h : Scaled k m) (hm : m < 2 * firstNormal) :
    units (k * firstNormal + m + 1) = units (k * firstNormal + m) + 2 ^ k := by
  have hsucc : Scaled k (m + 1) := ⟨hm, h.normal.imp_left (by omega)⟩
  rw [h.units_eq, Nat.add_assoc, hsucc.units_eq, Nat.succ_mul]

theorem units_strictMono : StrictMono units := by
  refine strictMono_nat_of_lt_succ fun r => ?_
  obtain ⟨k, m, h, hm, rfl⟩ := exists_scaled r
  rw [units_succ h hm]
  exact Nat.lt_add_of_pos_right (Nat.two_pow_pos k)

theorem units_pos {rank : Nat} (h : 0 < rank) : 0 < units rank :=
  (Nat.zero_le (units 0)).trans_lt (units_strictMono h)

theorem log2_scaled {k m : Nat} (hm : firstNormal ≤ m) (hm' : m < 2 * firstNormal) :
    (m * 2 ^ k).log2 = 52 + k := by
  refine (Nat.log2_eq_iff (by simp only [firstNormal] at hm; positivity)).mpr ⟨?_, ?_⟩
  · rw [Nat.pow_add]
    exact Nat.mul_le_mul_right _ hm
  · have hpow : 2 ^ (52 + k + 1) = 2 * firstNormal * 2 ^ k := by
      rw [Nat.pow_succ, Nat.pow_add]
      simp only [firstNormal]
      ring
    rw [hpow]
    exact Nat.mul_lt_mul_of_pos_right hm' (Nat.two_pow_pos k)

/-- A magnitude gives back its rank. -/
theorem rankOfUnits_units (r : Nat) : (rankOfUnits (units r)).val = min r infinityRank := by
  have hrank : (if units r < 2 * firstNormal then units r
      else ((units r).log2 - 52) * firstNormal + units r / Nat.pow 2 ((units r).log2 - 52)) =
        r := by
    by_cases hr : r < 2 * firstNormal
    · rw [units_of_lt hr, if_pos hr]
    · have hlarge : ¬units r < 2 * firstNormal := by
        have hmono := units_strictMono.monotone (Nat.le_of_not_lt hr)
        have hbound : units (2 * firstNormal) = 2 * firstNormal :=
          (units_scaled (k := 0) (by simp [firstNormal]) (Nat.le_refl _)).trans (by simp)
        omega
      obtain ⟨k, m, h, hm, rfl⟩ := exists_scaled r
      have hnormal : firstNormal ≤ m := h.normal.resolve_right fun hk => hr (by rw [hk]; omega)
      have hlog : (m * 2 ^ k).log2 - 52 = k := by rw [log2_scaled hnormal hm]; omega
      rw [if_neg hlarge, h.units_eq, hlog]
      exact congrArg (k * firstNormal + ·) (Nat.mul_div_cancel m (Nat.two_pow_pos k))
  exact congrArg (min · infinityRank) hrank

/-- A whole number at most one half away from `num / den`, and even if it is as far. -/
structure IsNearest (num den n : Nat) : Prop where
  le : 2 * (n * den) ≤ 2 * num + den
  ge : 2 * num ≤ 2 * (n * den) + den
  even_of_tie : 2 * (n * den) = 2 * num + den ∨ 2 * num = 2 * (n * den) + den → n % 2 = 0

theorem nearestEven_isNearest (num : Nat) {den : Nat} (hden : 0 < den) :
    IsNearest num den (nearestEven num den) := by
  have hdiv := Nat.div_add_mod' num den
  have hmod := Nat.mod_lt num hden
  rw [nearestEven]
  generalize num / den = q at *
  generalize num % den = r at *
  have hsucc : (q + 1) * den = q * den + den := Nat.succ_mul q den
  split
  · rename_i hcmp
    have hlt := Nat.compare_eq_lt.mp hcmp
    constructor <;> omega
  · rename_i hcmp
    have hlt := Nat.compare_eq_gt.mp hcmp
    constructor <;> omega
  · rename_i hcmp
    have heq := Nat.compare_eq_eq.mp hcmp
    rcases Nat.mod_two_eq_zero_or_one q with hq | hq
    · rw [hq, Nat.add_zero]
      constructor <;> omega
    · rw [hq]
      constructor <;> omega

theorem IsNearest.scaled {num den k m : Nat} (hden : 0 < den) (h : IsNearest num den m)
    (hlow : 0 < k → firstNormal * den ≤ num) (hhigh : num < 2 * firstNormal * den) :
    Scaled k m := by
  constructor
  · have hlt : 2 * m * den < (4 * firstNormal + 1) * den := by linarith [h.le]
    have := Nat.lt_of_mul_lt_mul_right hlt
    omega
  · rcases Nat.eq_zero_or_pos k with hk | hk
    · exact .inr hk
    · have hle : 2 * firstNormal * den ≤ (2 * m + 1) * den := by linarith [h.ge, hlow hk]
      have := Nat.le_of_mul_le_mul_right hle hden
      exact .inl (by omega)

/-- Rounding to 53 digits gives the significand nearest on the scale on which it has them all. -/
theorem exists_roundSignificant (num : Nat) {den : Nat} (hden : 0 < den) :
    ∃ k m, roundSignificant 53 num den = m * 2 ^ k ∧ IsNearest num (den * 2 ^ k) m ∧
      (0 < k → firstNormal * (den * 2 ^ k) ≤ num) ∧ num < 2 * firstNormal * (den * 2 ^ k) := by
  have hpow : ∀ k, firstNormal * 2 ^ k = 2 ^ (52 + k) := fun k => (Nat.pow_add 2 52 k).symm
  have hlt : num < (num / den + 1) * den := Nat.lt_mul_of_div_lt (Nat.lt_succ_self _) hden
  have hle : num / den * den ≤ num := Nat.div_mul_le_self num den
  rw [roundSignificant]
  generalize num / den = w at *
  refine ⟨w.log2 + 1 - 53, _, rfl, nearestEven_isNearest num (by positivity), ?_, ?_⟩
  · intro hk
    have hw : w ≠ 0 := by
      rintro rfl
      simp at hk
    have hlog : firstNormal * 2 ^ (w.log2 + 1 - 53) ≤ w := by
      rw [hpow, show 52 + (w.log2 + 1 - 53) = w.log2 by omega]
      exact Nat.log2_self_le hw
    calc firstNormal * (den * 2 ^ (w.log2 + 1 - 53))
        = firstNormal * 2 ^ (w.log2 + 1 - 53) * den := by ring
      _ ≤ w * den := Nat.mul_le_mul_right den hlog
      _ ≤ num := hle
  · have hlog : w + 1 ≤ 2 * (firstNormal * 2 ^ (w.log2 + 1 - 53)) := by
      rw [hpow, ← Nat.pow_succ']
      exact (Nat.lt_log2_self).trans_le (Nat.pow_le_pow_right (by omega) (by omega))
    calc num < (w + 1) * den := hlt
      _ ≤ 2 * (firstNormal * 2 ^ (w.log2 + 1 - 53)) * den := Nat.mul_le_mul_right den hlog
      _ = 2 * firstNormal * (den * 2 ^ (w.log2 + 1 - 53)) := by ring

/-- A rank whose interval holds `num / den` units; the ends belong to the even ranks. -/
structure Takes (rank num den : Nat) : Prop where
  low : (units (rank - 1) + units rank) * den ≤ 2 * num
  high : 2 * num ≤ (units rank + units (rank + 1)) * den
  even_of_end : (units (rank - 1) + units rank) * den = 2 * num ∨
    2 * num = (units rank + units (rank + 1)) * den → rank % 2 = 0

theorem roundsTo_iff {rank num den : Nat} : roundsTo rank num den = true ↔ Takes rank num den := by
  rw [roundsTo, doubledInterval]
  by_cases heven : rank % 2 = 0
  · simp only [heven, if_true, Bool.and_eq_true, decide_eq_true_eq]
    exact ⟨fun ⟨hlow, hhigh⟩ => ⟨hlow, hhigh, fun _ => heven⟩, fun h => ⟨h.low, h.high⟩⟩
  · simp only [heven, if_false, Bool.and_eq_true, decide_eq_true_eq]
    constructor
    · rintro ⟨hlow, hhigh⟩
      exact ⟨hlow.le, hhigh.le, fun h => by omega⟩
    · intro h
      have hends := mt h.even_of_end heven
      rw [not_or] at hends
      exact ⟨h.low.lt_of_ne hends.1, h.high.lt_of_ne hends.2⟩

/-- No number is taken by two ranks. -/
theorem Takes.unique {rank rank' num den : Nat} (hden : 0 < den) (h : Takes rank num den)
    (h' : Takes rank' num den) : rank = rank' := by
  wlog hlt : rank < rank' generalizing rank rank'
  · rcases Nat.lt_or_eq_of_le (Nat.le_of_not_lt hlt) with hgt | heq
    · exact (this h' h hgt).symm
    · exact heq.symm
  have hfirst : units rank ≤ units (rank' - 1) := units_strictMono.monotone (by omega)
  have hsecond : units (rank + 1) ≤ units rank' := units_strictMono.monotone (by omega)
  -- The intervals meet at most in a common end, which both ranks, being neighbours, cannot take.
  have hmeet : (units rank + units (rank + 1)) * den = (units (rank' - 1) + units rank') * den :=
    Nat.le_antisymm (Nat.mul_le_mul_right den (by omega)) (h'.low.trans h.high)
  have hends := Nat.eq_of_mul_eq_mul_right hden hmeet
  have hneighbours : rank = rank' - 1 := units_strictMono.injective (by omega)
  have heven := h.even_of_end (.inr (Nat.le_antisymm h.high (hmeet ▸ h'.low)))
  have heven' := h'.even_of_end (.inl (Nat.le_antisymm h'.low (hmeet ▸ h.high)))
  omega

theorem Scaled.units_add_one {k m : Nat} (h : Scaled k m) :
    units (k * firstNormal + m + 1) = units (k * firstNormal + m) + 2 ^ k ∨
      m = 2 * firstNormal ∧
        units (k * firstNormal + m) + 2 ^ k < units (k * firstNormal + m + 1) := by
  rcases Nat.lt_or_eq_of_le h.le with hlt | rfl
  · exact .inl (units_succ h hlt)
  · refine .inr ⟨rfl, ?_⟩
    have hcarry : k * firstNormal + 2 * firstNormal + 1 =
        (k + 1) * firstNormal + (firstNormal + 1) := by ring
    rw [h.units_eq, hcarry, units_scaled (Nat.le_succ _) (by simp [firstNormal]), Nat.pow_succ]
    have hpos := Nat.two_pow_pos k
    linarith

theorem Scaled.units_sub_one {k m : Nat} (h : Scaled k m) :
    k = 0 ∧ m = 0 ∨ units (k * firstNormal + m - 1) + 2 ^ k = units (k * firstNormal + m) ∨
      m = firstNormal ∧ 0 < k ∧
        units (k * firstNormal + m - 1) < units (k * firstNormal + m) := by
  rcases Nat.eq_zero_or_pos m with rfl | hm
  · exact .inl ⟨h.normal.resolve_left (by simp [firstNormal]), rfl⟩
  obtain ⟨m, rfl⟩ : ∃ m', m = m' + 1 := ⟨m - 1, by omega⟩
  rw [← Nat.add_assoc, Nat.add_sub_cancel]
  by_cases hlast : m + 1 = firstNormal ∧ 0 < k
  · exact .inr (.inr ⟨hlast.1, hlast.2, units_strictMono (Nat.lt_succ_self _)⟩)
  · have hpred : Scaled k m := ⟨by have := h.le; omega, by have := h.normal; omega⟩
    exact .inr (.inl (units_succ hpred (by have := h.le; omega)).symm)

/-- The rank of the nearest significand takes the number. -/
theorem IsNearest.takes {num den k m : Nat} (hden : 0 < den) (h : IsNearest num (den * 2 ^ k) m)
    (hlow : 0 < k → firstNormal * (den * 2 ^ k) ≤ num)
    (hhigh : num < 2 * firstNormal * (den * 2 ^ k)) : Takes (k * firstNormal + m) num den := by
  have hscaled := h.scaled (by positivity) hlow hhigh
  have hunits : units (k * firstNormal + m) * den = m * (den * 2 ^ k) := by
    rw [hscaled.units_eq]
    ring
  have hparity : (k * firstNormal + m) % 2 = m % 2 := by
    simp only [firstNormal]
    omega
  have hpos : 0 < den * 2 ^ k := by positivity
  have hlower : (units (k * firstNormal + m - 1) + units (k * firstNormal + m)) * den < 2 * num ∨
      (units (k * firstNormal + m - 1) + units (k * firstNormal + m)) * den + den * 2 ^ k =
        2 * (m * (den * 2 ^ k)) ∨ k = 0 ∧ m = 0 := by
    rcases hscaled.units_sub_one with hzero | hpred | ⟨rfl, hk, hpred⟩
    · exact .inr (.inr hzero)
    · refine .inr (.inl ?_)
      rw [← hunits, ← hpred]
      ring
    · left
      have hlt := Nat.mul_lt_mul_of_pos_right hpred hden
      have hle := hlow hk
      rw [Nat.add_mul]
      omega
  have hupper : 2 * num < (units (k * firstNormal + m) + units (k * firstNormal + m + 1)) * den ∨
      (units (k * firstNormal + m) + units (k * firstNormal + m + 1)) * den =
        2 * (m * (den * 2 ^ k)) + den * 2 ^ k := by
    rcases hscaled.units_add_one with hsucc | ⟨rfl, hsucc⟩
    · right
      rw [hsucc, ← hunits]
      ring
    · left
      have hlt := Nat.mul_lt_mul_of_pos_right hsucc hden
      rw [Nat.add_mul] at hlt ⊢
      linarith
  have hle := h.le
  have hge := h.ge
  have htie := h.even_of_tie
  rcases hlower with hlower | hlower | ⟨rfl, rfl⟩
  · rcases hupper with hupper | hupper
    · exact ⟨by omega, by omega, by omega⟩
    · exact ⟨by omega, by omega, by omega⟩
  · rcases hupper with hupper | hupper
    · exact ⟨by omega, by omega, by omega⟩
    · exact ⟨by omega, by omega, by omega⟩
  · have hzero : units 0 = 0 := rfl
    rcases hupper with hupper | hupper
    · exact ⟨by simp [hzero], by omega, by omega⟩
    · exact ⟨by simp [hzero], by omega, by omega⟩

/-- The neighbours of a magnitude are far enough apart that the decimals of 17 digits, more than
`10 ^ 16` to a magnitude, have one between the midpoints. -/
theorem units_neighbours {rank : Nat} (h : 0 < rank) :
    2 * units rank + units (rank - 1) * 10 ^ 16 < units (rank + 1) * 10 ^ 16 := by
  obtain ⟨k, m, hscaled, hm, rfl⟩ := exists_scaled rank
  have hpos := Nat.two_pow_pos k
  have hunits := hscaled.units_eq
  have hsucc := units_succ hscaled hm
  have hm' : m * 2 ^ k ≤ 2 * firstNormal * 2 ^ k := Nat.mul_le_mul_right _ hm.le
  rcases hscaled.units_sub_one with ⟨rfl, rfl⟩ | hpred | ⟨rfl, hk, hpred⟩
  · simp at h
  all_goals simp only [firstNormal] at *; omega

/-- What rounding computes takes the number. -/
theorem exists_takes_roundSignificant (num : Nat) {den : Nat} (hden : 0 < den) :
    ∃ rank, roundSignificant 53 num den = units rank ∧ Takes rank num den := by
  obtain ⟨k, m, hround, hnearest, hlow, hhigh⟩ := exists_roundSignificant num hden
  have hscaled := hnearest.scaled (by positivity) hlow hhigh
  exact ⟨_, hround.trans hscaled.units_eq.symm, hnearest.takes hden hlow hhigh⟩

/-- A number that a finite rank takes is rounded to it. -/
theorem ofRatio_of_takes {rank num den : Nat} (negative : Bool) (hden : 0 < den)
    (hrank : rank < infinityRank) (h : Takes rank (num * one) den) :
    ofRatio negative num den = .number negative ⟨rank, Nat.lt_succ_of_lt hrank⟩ := by
  obtain ⟨rank', hround, htakes⟩ := exists_takes_roundSignificant (num * one) hden
  obtain rfl := htakes.unique hden h
  have hval := rankOfUnits_units rank'
  rw [Nat.min_eq_left hrank.le] at hval
  rw [ofRatio, hround]
  exact congrArg (Double.number negative) (Fin.ext hval)

end FilterLang.Double
