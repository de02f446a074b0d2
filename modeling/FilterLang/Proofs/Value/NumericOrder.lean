import Mathlib.Algebra.Order.Field.Rat
import Mathlib.Data.Int.ConditionallyCompleteOrder
import Mathlib.Order.Interval.Set.Defs
import Mathlib.Order.WithBot
import FilterLang.Proofs.Double.Exact

/-! The exact order of numbers, integers and doubles alike.

A number is read as the rational that it denotes, and an infinity as an end of the line
(`Value.denotation?`). In units of the least positive double both are whole numbers
(`Value.amount?`), which are in the same order up to the infinities
(`Double.strictMonoOn_ofAmount`). Main statement: `numericCompare?_eq_cmp`. -/

namespace FilterLang

namespace Double

/-- The exact value of a number: a finite one is a rational, and the infinities are the ends. -/
def denotation? : Double → Option (WithBot (WithTop ℚ))
  | nan => none
  | number negative rank =>
    if rank.val < infinityRank then some ((amount negative rank / one : ℚ) : WithTop ℚ)
    else some (if negative then ⊥ else ⊤)

/-- The amount where the positive infinity lies. -/
def amountBound : Int := units infinityRank

/-- The exact value of an amount; there is none beyond the infinities. -/
def ofAmount (a : Int) : WithBot (WithTop ℚ) :=
  if a ≤ -amountBound then ⊥
  else if amountBound ≤ a then ⊤
  else ((a / one : ℚ) : WithTop ℚ)

theorem amountBound_pos : 0 < amountBound :=
  Int.natCast_pos.mpr (units_strictMono (a := 0) (by decide))

theorem one_rat_pos : (0 : ℚ) < one := Nat.cast_pos.mpr one_pos

theorem ofAmount_of_lt {a : Int} (hlow : -amountBound < a) (hhigh : a < amountBound) :
    ofAmount a = ((a / one : ℚ) : WithTop ℚ) := by
  rw [ofAmount, if_neg hlow.not_ge, if_neg hhigh.not_ge]

theorem ofAmount_amountBound : ofAmount amountBound = ⊤ := by
  have hpos := amountBound_pos
  rw [ofAmount, if_neg (by omega), if_pos le_rfl]

theorem ofAmount_neg_amountBound : ofAmount (-amountBound) = ⊥ := if_pos le_rfl

theorem strictMonoOn_ofAmount :
    StrictMonoOn ofAmount (Set.Icc (-amountBound) amountBound) := by
  intro a ha b hb hab
  have ha' : ¬amountBound ≤ a := (hab.trans_le hb.2).not_ge
  have hb' : ¬b ≤ -amountBound := (ha.1.trans_lt hab).not_ge
  rw [ofAmount, ofAmount, if_neg hb', if_neg ha']
  split
  · split
    · exact WithBot.bot_lt_coe ⊤
    · exact WithBot.bot_lt_coe _
  · split
    · exact WithBot.coe_lt_coe.mpr (WithTop.coe_lt_top _)
    · have hlt : (a : ℚ) / one < b / one :=
        div_lt_div_of_pos_right (Int.cast_lt.mpr hab) one_rat_pos
      exact WithBot.coe_lt_coe.mpr (WithTop.coe_lt_coe.mpr hlt)

theorem amount_mem_Icc (s : Bool) (r : Rank) :
    amount s r ∈ Set.Icc (-amountBound) amountBound := by
  have hle : units r ≤ units infinityRank := units_strictMono.monotone (Nat.le_of_lt_succ r.isLt)
  rw [Set.mem_Icc, amount, amountBound]
  cases s <;> simp only [if_true, if_false, Bool.false_eq_true] <;> omega

theorem denotation?_number (s : Bool) (r : Rank) :
    (number s r).denotation? = some (ofAmount (amount s r)) := by
  rw [denotation?]
  split
  · rename_i hr
    have hlt : units r < units infinityRank := units_strictMono hr
    refine congrArg some (ofAmount_of_lt ?_ ?_).symm
    all_goals
      rw [amount, amountBound]
      cases s <;> simp only [if_true, if_false, Bool.false_eq_true] <;> omega
  · rename_i hr
    obtain rfl : r = ⟨infinityRank, Nat.lt_succ_self _⟩ :=
      Fin.ext (Nat.le_antisymm (Nat.le_of_lt_succ r.isLt) (Nat.le_of_not_lt hr))
    cases s with
    | false => exact congrArg some ofAmount_amountBound.symm
    | true => exact congrArg some ofAmount_neg_amountBound.symm

/-- An integer as an amount is no infinity. -/
theorem int_lt_amountBound (i : Int64) :
    -amountBound < i.toInt * one ∧ i.toInt * one < amountBound := by
  have hone : (0 : Int) < one := Int.natCast_pos.mpr one_pos
  have hhigh : i.toInt * one < 2 ^ 63 * one := Int.mul_lt_mul_of_pos_right i.toInt_lt hone
  have hlow : -2 ^ 63 * (one : Int) ≤ i.toInt * one :=
    Int.mul_le_mul_of_nonneg_right i.le_toInt hone.le
  have hbound : (2 ^ 63 * one : Nat) < units infinityRank := by decide +kernel
  rw [amountBound]
  push_cast at hbound
  constructor <;> omega

end Double

namespace Value

open Double

/-- The exact value of a number; nothing else has one. -/
def denotation? : Value → Option (WithBot (WithTop ℚ))
  | int i => some ((i.toInt : ℚ) : WithTop ℚ)
  | float x => x.denotation?
  | _ => none

/-- A number in units of the least positive double. -/
def amount? : Value → Option Int
  | int i => some (i.toInt * one)
  | float (.number s r) => some (amount s r)
  | _ => none

theorem denotation?_eq (v : Value) : v.denotation? = v.amount?.map ofAmount := by
  cases v with
  | int i =>
    obtain ⟨hlow, hhigh⟩ := int_lt_amountBound i
    have hvalue : ((i.toInt * one : Int) : ℚ) / one = i.toInt := by
      rw [Int.cast_mul, Int.cast_natCast, mul_div_cancel_right₀ _ one_rat_pos.ne']
    rw [denotation?, amount?, Option.map_some, ofAmount_of_lt hlow hhigh, hvalue]
  | float x =>
    cases x with
    | nan => rfl
    | number s r => exact denotation?_number s r
  | _ => rfl

theorem amount?_mem_Icc {v : Value} {a : Int} (h : v.amount? = some a) :
    a ∈ Set.Icc (-amountBound) amountBound := by
  cases v with
  | int i =>
    cases h
    obtain ⟨hlow, hhigh⟩ := int_lt_amountBound i
    exact ⟨hlow.le, hhigh.le⟩
  | float x =>
    cases x with
    | nan => cases h
    | number s r =>
      cases h
      exact amount_mem_Icc s r
  | _ => cases h

/-- Between the bounds the whole part of a number is an integer of 64 bits. -/
theorem toInt_ofInt_truncate_of_compare? {x : Double} (hhigh : x.compare? intBound = some .lt)
    (hlow : x.compare? intBound.neg ≠ some .lt) :
    (Int64.ofInt x.truncate).toInt = x.truncate := by
  cases x with
  | nan => cases hhigh
  | number s r =>
    obtain ⟨bound, hbound, hunits⟩ := intBound_eq
    rw [hbound, compare?_number, Option.some_inj, compare_lt_iff_lt] at hhigh
    rw [hbound, neg, compare?_number, ne_eq, Option.some_inj, compare_lt_iff_lt] at hlow
    simp only [amount, Bool.not_false, Bool.false_eq_true, if_true, if_false, hunits] at hhigh hlow
    push_cast at hhigh hlow
    exact toInt_ofInt_truncate (Int.not_lt.mp hlow) hhigh

theorem numericCompare?_eq_compare (a b : Value) :
    a.numericCompare? b = a.amount?.bind fun x => b.amount?.map (compare x) := by
  have hone : (0 : Int) < one := Int.natCast_pos.mpr Double.one_pos
  cases a with
  | int i =>
    cases b with
    | int j =>
      have hlt : ∀ m n : Int, m < n ↔ m * one < n * one := fun m n =>
        (Int.mul_lt_mul_right hone).symm
      have hcompare : compare i j = compare (i.toInt * one) (j.toInt * one) := by
        rw [compare_int64]
        exact compare_congr (hlt _ _) (hlt _ _)
      exact congrArg some hcompare
    | float y =>
      cases y with
      | nan => rfl
      | number s r => exact compareInt?_number i s r
    | _ => rfl
  | float x =>
    cases x with
    | nan =>
      cases b with
      | int j => rfl
      | float y => rfl
      | _ => rfl
    | number s r =>
      cases b with
      | int j =>
        change (compareInt? j (.number s r)).map Ordering.swap = some _
        rw [compareInt?_number, Option.map_some, Int.compare_swap]
      | float y =>
        cases y with
        | nan => rfl
        | number s' r' => exact compare?_number s s' r r'
      | _ => rfl
  | _ => rfl

/-- Numbers are compared as the rationals and the ends that they denote, so that comparing either
way round agrees and at most is transitive, both zeros are equal to the integer, and `nan` compares
with nothing. Between the bounds, where the whole part is taken for an integer of 64 bits, it is
one. -/
theorem numericCompare?_eq_cmp :
    (∀ a b : Value,
        a.numericCompare? b = a.denotation?.bind fun x => b.denotation?.map (cmp x)) ∧
      (∀ a b : Value, a.numericCompare? b = (b.numericCompare? a).map Ordering.swap) ∧
      (∀ a b c : Value, (a.numericCompare? b).any Ordering.isLE →
        (b.numericCompare? c).any Ordering.isLE → (a.numericCompare? c).any Ordering.isLE) ∧
      ((float .zero).numericCompare? (int 0) = some .eq ∧
        (float Double.zero.neg).numericCompare? (int 0) = some .eq) ∧
      ∀ x : Double, x.compare? intBound = some .lt → x.compare? intBound.neg ≠ some .lt →
        (Int64.ofInt x.truncate).toInt = x.truncate := by
  refine ⟨fun a b => ?_, fun a b => ?_, fun a b c => ?_, ⟨?_, ?_⟩, fun x => ?_⟩
  · rw [numericCompare?_eq_compare, denotation?_eq, denotation?_eq]
    cases ha : a.amount? with
    | none => rfl
    | some x =>
      cases hb : b.amount? with
      | none =>
        rw [Option.map_some, Option.bind_some, Option.bind_some]
        rfl
      | some y =>
        have hcmp : cmp (ofAmount x) (ofAmount y) = compare x y :=
          (strictMonoOn_ofAmount.cmp_map_eq (amount?_mem_Icc ha) (amount?_mem_Icc hb)).trans
            (cmp_eq_compare x y)
        exact congrArg some hcmp.symm
  · rw [numericCompare?_eq_compare, numericCompare?_eq_compare]
    cases a.amount? with
    | none => cases b.amount? <;> rfl
    | some x =>
      cases b.amount? with
      | none => rfl
      | some y => simp only [Option.bind_some, Option.map_some, Int.compare_swap]
  · rw [numericCompare?_eq_compare, numericCompare?_eq_compare, numericCompare?_eq_compare]
    intro hab hbc
    cases ha : a.amount? with
    | none => rw [ha] at hab; cases hab
    | some x =>
      cases hb : b.amount? with
      | none => rw [ha, hb] at hab; cases hab
      | some y =>
        cases hc : c.amount? with
        | none => rw [hb, hc] at hbc; cases hbc
        | some z =>
          rw [ha, hb] at hab
          rw [hb, hc] at hbc
          exact Std.TransOrd.isLE_trans hab hbc
  · decide +kernel
  · decide +kernel
  · exact toInt_ofInt_truncate_of_compare?

/-- The greatest double below the bound, the greatest integer and the bound are in this order. -/
theorem numericCompare?_eq_cmp_intBound :
    let below : Double := .number false ⟨0x43dfffffffffffff, by decide⟩
    let greatest : Value := int 9223372036854775807
    below.compare? intBound = some .lt ∧ below.compare? intBound.neg ≠ some .lt ∧
      (Int64.ofInt below.truncate).toInt = below.truncate ∧
      ((float below).numericCompare? greatest).any Ordering.isLE ∧
      (greatest.numericCompare? (float intBound)).any Ordering.isLE ∧
      ((float below).numericCompare? (float intBound)).any Ordering.isLE := by
  intro below greatest
  obtain ⟨-, -, htrans, -, htruncate⟩ := numericCompare?_eq_cmp
  have hhigh : below.compare? intBound = some .lt := by decide +kernel
  have hlow : below.compare? intBound.neg ≠ some .lt := by decide +kernel
  have hbelow : ((float below).numericCompare? greatest).any Ordering.isLE := by decide +kernel
  have habove : (greatest.numericCompare? (float intBound)).any Ordering.isLE := by decide +kernel
  exact ⟨hhigh, hlow, htruncate below hhigh hlow, hbelow, habove, htrans _ _ _ hbelow habove⟩

end Value

end FilterLang
