import FilterLang.Proofs.Double.Exact
import FilterLang.Proofs.Value.Order

/-! The order in which values are sorted, and where it is one.

The integer zero sorts as equal to both zeros among the doubles, which are told apart. Values of
which one of the three zeros is missing lie in one line (`lineCompare`): without the integer the
signs stay apart, and otherwise all zeros may be taken for one. Main statement:
`sortCompare_totalPreorder_iff`. -/

namespace FilterLang

/-- A comparison under which the values of a set form a total preorder. -/
structure TotalPreorderOn {α : Type} (cmp : α → α → Ordering) (S : α → Prop) : Prop where
  swap : ∀ {a b}, S a → S b → cmp a b = (cmp b a).swap
  refl : ∀ {a}, S a → cmp a a = .eq
  le_trans : ∀ {a b c}, S a → S b → S c → (cmp a b).isLE → (cmp b c).isLE → (cmp a c).isLE
  eq_trans : ∀ {a b c}, S a → S b → S c → cmp a b = .eq → cmp b c = .eq → cmp a c = .eq
  lt_of_lt_of_eq : ∀ {a b c}, S a → S b → S c → cmp a b = .lt → cmp b c = .eq → cmp a c = .lt
  lt_of_eq_of_lt : ∀ {a b c}, S a → S b → S c → cmp a b = .eq → cmp b c = .lt → cmp a c = .lt

theorem TotalPreorderOn.of_transCmp {α : Type} {cmp cmp' : α → α → Ordering} {S : α → Prop}
    [Std.TransCmp cmp'] (h : ∀ a b, S a → S b → cmp a b = cmp' a b) : TotalPreorderOn cmp S where
  swap ha hb := by
    rw [h _ _ ha hb, h _ _ hb ha]
    exact Std.OrientedCmp.eq_swap
  refl ha := by
    rw [h _ _ ha ha]
    exact Std.ReflCmp.compare_self
  le_trans ha hb hc := by
    rw [h _ _ ha hb, h _ _ hb hc, h _ _ ha hc]
    exact Std.TransCmp.isLE_trans
  eq_trans ha hb hc := by
    rw [h _ _ ha hb, h _ _ hb hc, h _ _ ha hc]
    exact Std.TransCmp.eq_trans
  lt_of_lt_of_eq ha hb hc := by
    rw [h _ _ ha hb, h _ _ hb hc, h _ _ ha hc]
    exact Std.TransCmp.lt_of_lt_of_eq
  lt_of_eq_of_lt ha hb hc := by
    rw [h _ _ ha hb, h _ _ hb hc, h _ _ ha hc]
    exact Std.TransCmp.lt_of_eq_of_lt

theorem transCmp_on {α β : Type} (f : α → β) (cmp : β → β → Ordering) [Std.TransCmp cmp] :
    Std.TransCmp fun a b => cmp (f a) (f b) where
  eq_swap := Std.OrientedCmp.eq_swap
  isLE_trans := Std.TransCmp.isLE_trans

instance : Std.TransCmp Date.compare :=
  inferInstanceAs (Std.TransCmp (compareLex
    (compareLex (compareOn Date.year) (compareOn Date.month)) (compareOn Date.day)))

instance : Std.TransCmp Time.compare :=
  inferInstanceAs (Std.TransCmp (compareLex (compareLex
    (compareLex (compareOn Time.hour) (compareOn Time.minute)) (compareOn Time.second))
      (compareOn Time.nanosecond)))

instance : Ord Date := ⟨Date.compare⟩

instance : Ord Time := ⟨Time.compare⟩

instance : Std.TransOrd Date := inferInstanceAs (Std.TransCmp Date.compare)

instance : Std.TransOrd Time := inferInstanceAs (Std.TransCmp Time.compare)

instance : Std.TransCmp DateTime.compare :=
  inferInstanceAs (Std.TransCmp (compareLex (compareOn DateTime.date) (compareOn DateTime.time)))

instance : Ord DateTime := ⟨DateTime.compare⟩

instance : Std.TransOrd DateTime := inferInstanceAs (Std.TransCmp DateTime.compare)

namespace Value

open Double

/-- The place of a number in its line. Where zeros are split, the negative zero comes before the
others. -/
def doublePlace (split : Bool) : Double → Int
  | .nan => 2 * units infinityRank + 1
  | .number s r => 2 * amount s r - if split ∧ s ∧ r.val = 0 then 1 else 0

def numberPlace (split : Bool) : Value → Int
  | bool b => b.toNat
  | int i => 2 * (i.toInt * one)
  | float x => doublePlace split x
  | _ => 0

@[simp] def textPlace : Value → String
  | text s => s
  | _ => ""

@[simp] def datePlace : Value → Option DateTime
  | dateTime t => some t
  | _ => none

@[simp] def bytesPlace : Value → List UInt8
  | bytes b => b
  | _ => []

/-- The order of values by their kinds and then by their places. -/
def lineCompare (split : Bool) : Value → Value → Ordering :=
  compareLex (compareOn rank) (compareLex (compareOn (numberPlace split))
    (compareLex (compareOn textPlace) (compareLex (compareOn datePlace) (compareOn bytesPlace))))

instance (split : Bool) : Std.TransCmp (lineCompare split) :=
  inferInstanceAs (Std.TransCmp (compareLex _ (compareLex _ (compareLex _ (compareLex _ _)))))

theorem lineCompare_of_rank_eq (split : Bool) (a b : Value) (h : a.rank = b.rank) :
    lineCompare split a b = (compare (a.numberPlace split) (b.numberPlace split)).then
      ((compare a.textPlace b.textPlace).then
        ((compare a.datePlace b.datePlace).then (compare a.bytesPlace b.bytesPlace))) := by
  simp only [lineCompare, compareLex, compareOn, h, Std.ReflCmp.compare_self, Ordering.eq_then]

/-- Values that are not both numbers lie in their line; numbers do if they do among each other. -/
theorem sortCompare_eq_lineCompare {split : Bool} {a b : Value}
    (h : a.rank = 2 → b.rank = 2 →
      a.sortCompare b = compare (a.numberPlace split) (b.numberPlace split)) :
    a.sortCompare b = lineCompare split a b := by
  have hnumbers : a.rank = 2 → b.rank = 2 → a.sortCompare b = lineCompare split a b := by
    intro ha hb
    rw [h ha hb, lineCompare_of_rank_eq split a b (ha.trans hb.symm)]
    cases a <;> cases ha <;> cases b <;> cases hb <;> simp
  cases a with
  | null => cases b <;> rfl
  | bool x =>
    cases b with
    | bool y => cases x <;> cases y <;> rfl
    | _ => rfl
  | int i =>
    cases b with
    | int j => exact hnumbers rfl rfl
    | float y => exact hnumbers rfl rfl
    | _ => rfl
  | float x =>
    cases b with
    | int j => exact hnumbers rfl rfl
    | float y => exact hnumbers rfl rfl
    | _ => rfl
  | text s =>
    cases b with
    | text t =>
      rw [lineCompare_of_rank_eq split (text s) (text t) rfl]
      simp [sortCompare, compare?, numberPlace]
    | _ => rfl
  | dateTime t =>
    cases b with
    | dateTime u =>
      have hdate : compare (some t) (some u) = t.compare u := rfl
      rw [lineCompare_of_rank_eq split (dateTime t) (dateTime u) rfl]
      simp [sortCompare, compare?, numberPlace, hdate]
    | _ => rfl
  | bytes x =>
    cases b with
    | bytes y =>
      rw [lineCompare_of_rank_eq split (bytes x) (bytes y) rfl]
      simp [sortCompare, compare?, numberPlace]
    | _ => rfl

theorem sortCompare_int_int (split : Bool) (i j : Int64) :
    (int i).sortCompare (int j) =
      compare ((int i).numberPlace split) ((int j).numberPlace split) := by
  have hone : (0 : Int) < one := Int.natCast_pos.mpr Double.one_pos
  have hlt : ∀ a b : Int, a < b ↔ 2 * (a * one) < 2 * (b * one) := by
    intro a b
    rw [Int.mul_lt_mul_left (by decide), Int.mul_lt_mul_right hone]
  change compare i j = _
  rw [compare_int64]
  exact compare_congr (hlt _ _) (hlt _ _)

/-- No integer is equal to the negative zero of a split line. -/
theorem sortCompare_int_float {split : Bool} {i : Int64} (y : Double) (hi : split → i ≠ 0) :
    (int i).sortCompare (float y) =
      compare ((int i).numberPlace split) ((float y).numberPlace split) := by
  have hone : (0 : Int) < one := Int.natCast_pos.mpr Double.one_pos
  cases y with
  | nan =>
    have hbound : i.toInt * one < 2 ^ 63 * one := Int.mul_lt_mul_of_pos_right i.toInt_lt hone
    have hinfinity : (2 ^ 63 * one : Nat) < units infinityRank := by decide +kernel
    have hlt : (int i).numberPlace split < (float .nan).numberPlace split := by
      simp only [numberPlace, doublePlace]
      push_cast at hinfinity
      omega
    rw [compare_lt_iff_lt.mpr hlt]
    change (Double.ofInt i.toInt).totalCompare .nan = .lt
    refine compare_lt_iff_lt.mpr ?_
    rw [Double.ofInt, ofRatio]
    simp only [totalKey]
    split <;> omega
  | number s r =>
    change (compareInt? i (.number s r)).getD _ = _
    rw [compareInt?_number, Option.getD_some]
    simp only [numberPlace, doublePlace]
    by_cases hzero : split ∧ s ∧ r.val = 0
    · have hne : i.toInt ≠ 0 := fun h => hi hzero.1 (Int64.toInt_inj.mp h)
      have hunits : amount s r = 0 := by
        rw [amount, hzero.2.2]
        split <;> rfl
      rw [if_pos hzero, hunits]
      have hpos : i.toInt * one ≠ 0 := Int.mul_ne_zero hne hone.ne'
      exact compare_congr (by omega) (by omega)
    · rw [if_neg hzero]
      exact compare_congr (by omega) (by omega)

theorem sortCompare_float_int {split : Bool} (x : Double) {j : Int64} (hj : split → j ≠ 0) :
    (float x).sortCompare (int j) =
      compare ((float x).numberPlace split) ((int j).numberPlace split) := by
  have hswap : (float x).sortCompare (int j) = ((int j).sortCompare (float x)).swap := by
    simp only [sortCompare]
    cases compareInt? j x with
    | none => exact (Int.compare_swap _ _).symm
    | some o => rfl
  rw [hswap, sortCompare_int_float x hj, Int.compare_swap]

/-- Not the two zeros of either sign, unless they are told apart. -/
def Splits (split : Bool) (x y : Double) : Prop :=
  split ∨ ¬((x = zero ∧ y = zero.neg) ∨ (x = zero.neg ∧ y = zero))

theorem Splits.symm {split : Bool} {x y : Double} (h : Splits split x y) : Splits split y x :=
  h.imp_right fun h h' => h (h'.symm.imp And.symm And.symm)

theorem Splits.sign_eq_or {split s s' : Bool} {r r' : Rank}
    (h : Splits split (.number s r) (.number s' r')) :
    split ∨ s = s' ∨ r.val ≠ 0 ∨ r'.val ≠ 0 := by
  refine h.imp_right fun h => ?_
  by_contra hcon
  obtain ⟨hsign, hr, hr'⟩ : s ≠ s' ∧ r.val = 0 ∧ r'.val = 0 := by
    simpa [not_or] using hcon
  obtain rfl : r = ⟨0, by decide⟩ := Fin.ext hr
  obtain rfl : r' = ⟨0, by decide⟩ := Fin.ext hr'
  cases s <;> cases s'
  · exact hsign rfl
  · exact h (.inl ⟨rfl, rfl⟩)
  · exact h (.inr ⟨rfl, rfl⟩)
  · exact hsign rfl

theorem totalKey_number_lt_iff {split s s' : Bool} {r r' : Rank}
    (h : Splits split (.number s r) (.number s' r')) :
    (number s r).totalKey < (number s' r').totalKey ↔
      doublePlace split (.number s r) < doublePlace split (.number s' r') := by
  have hlt : units r < units r' ↔ r.val < r'.val := units_strictMono.lt_iff_lt
  have hgt : units r' < units r ↔ r'.val < r.val := units_strictMono.lt_iff_lt
  have hpos : 0 < units r ↔ 0 < r.val := units_strictMono.lt_iff_lt (a := 0)
  have hpos' : 0 < units r' ↔ 0 < r'.val := units_strictMono.lt_iff_lt (a := 0)
  have hzeros := h.sign_eq_or
  cases split <;> cases s <;> cases s' <;>
    simp only [totalKey, doublePlace, amount, if_true, if_false, Bool.false_eq_true, false_and,
      true_and, reduceCtorEq, false_or] at hzeros ⊢ <;> omega

theorem totalKey_lt_totalKey_iff {split : Bool} {x y : Double} (h : Splits split x y) :
    x.totalKey < y.totalKey ↔ doublePlace split x < doublePlace split y := by
  -- What is not a number lies above infinity on both sides.
  have hbound : ∀ r : Rank, units r ≤ units infinityRank := fun r =>
    units_strictMono.monotone (Nat.le_of_lt_succ r.isLt)
  cases x with
  | nan =>
    cases y with
    | nan => simp
    | number s' r' =>
      have := hbound r'
      simp only [totalKey, doublePlace, amount]
      constructor
      · intro hlt
        split at hlt <;> omega
      · intro hlt
        split at hlt <;> split at hlt <;> omega
  | number s r =>
    cases y with
    | nan =>
      have := hbound r
      simp only [totalKey, doublePlace, amount]
      constructor
      · intro
        split <;> split <;> omega
      · intro
        split <;> omega
    | number s' r' => exact totalKey_number_lt_iff h

theorem sortCompare_float_float {split : Bool} {x y : Double} (h : Splits split x y) :
    (float x).sortCompare (float y) =
      compare ((float x).numberPlace split) ((float y).numberPlace split) :=
  compare_congr (totalKey_lt_totalKey_iff h) (totalKey_lt_totalKey_iff h.symm)

/-- The integer zero and both zeros among the doubles. -/
def MixesZeros (S : Value → Prop) : Prop :=
  S (int 0) ∧ S (float .zero) ∧ S (float Double.zero.neg)

/-- Without one of the three zeros all values of a set lie in one line. -/
theorem exists_lineCompare {S : Value → Prop} (h : ¬MixesZeros S) :
    ∃ split, ∀ a b, S a → S b → a.sortCompare b = lineCompare split a b := by
  classical
  -- The signs may be told apart as long as no integer is equal to both zeros.
  refine ⟨decide ¬S (int 0), fun a b ha hb => sortCompare_eq_lineCompare fun ha' hb' => ?_⟩
  have hint : ∀ i, S (int i) → decide (¬S (int 0)) → i ≠ 0 := by
    rintro i hi hsplit rfl
    exact of_decide_eq_true hsplit hi
  have hsplits : ∀ x y, S (float x) → S (float y) → Splits (decide ¬S (int 0)) x y := by
    intro x y hx hy
    by_cases hzero : S (int 0)
    · refine .inr ?_
      rintro (⟨rfl, rfl⟩ | ⟨rfl, rfl⟩)
      · exact h ⟨hzero, hx, hy⟩
      · exact h ⟨hzero, hy, hx⟩
    · exact .inl (decide_eq_true hzero)
  cases a <;> cases ha' <;> cases b <;> cases hb'
  case int.refl.int.refl i j => exact sortCompare_int_int _ i j
  case int.refl.float.refl i y => exact sortCompare_int_float y (hint i ha)
  case float.refl.int.refl x j => exact sortCompare_float_int x (hint j hb)
  case float.refl.float.refl x y => exact sortCompare_float_float (hsplits x y ha hb)

theorem totalPreorderOn_sortCompare {S : Value → Prop} (h : ¬MixesZeros S) :
    TotalPreorderOn sortCompare S := by
  obtain ⟨split, hline⟩ := exists_lineCompare h
  exact .of_transCmp hline

/-- Two values never mix the three zeros. -/
theorem totalPreorderOn_pair (a b : Value) :
    TotalPreorderOn sortCompare fun v => v = a ∨ v = b := by
  refine totalPreorderOn_sortCompare ?_
  rintro ⟨hint, hzero, hneg⟩
  have hsigns : float Double.zero.neg ≠ float .zero := by decide
  rcases hint with rfl | rfl
  · obtain rfl := hzero.resolve_left nofun
    exact hneg.elim nofun hsigns
  · obtain rfl := hzero.resolve_right nofun
    exact hneg.elim hsigns nofun

theorem sortCompare_swap (a b : Value) : a.sortCompare b = (b.sortCompare a).swap :=
  (totalPreorderOn_pair a b).swap (.inl rfl) (.inr rfl)

/-- Any two values are sorted alike from both sides and any value is equal to itself, but the values
of a set are sorted in a total preorder exactly if one of the three zeros is missing. -/
theorem sortCompare_totalPreorder_iff (S : Value → Prop) :
    (∀ a b : Value, a.sortCompare b = (b.sortCompare a).swap) ∧
      (∀ a : Value, a.sortCompare a = .eq) ∧ (TotalPreorderOn sortCompare S ↔ ¬MixesZeros S) := by
  refine ⟨sortCompare_swap, fun a => ?_, ?_, totalPreorderOn_sortCompare⟩
  · exact (totalPreorderOn_pair a a).refl (.inl rfl)
  · rintro hpreorder ⟨hint, hzero, hneg⟩
    have hle := hpreorder.le_trans hzero hint hneg (by decide +kernel) (by decide +kernel)
    exact absurd hle (by decide +kernel)

/-- The integer zero is equal to zeros that differ from one another. -/
theorem sortCompare_zeros :
    (float .zero).sortCompare (int 0) = .eq ∧
      (int 0).sortCompare (float Double.zero.neg) = .eq ∧
      (float .zero).sortCompare (float Double.zero.neg) = .gt ∧
      ¬TotalPreorderOn sortCompare fun _ => True := by
  have hfirst : (float .zero).sortCompare (int 0) = .eq := by decide +kernel
  have hsecond : (int 0).sortCompare (float Double.zero.neg) = .eq := by decide +kernel
  have hends : (float .zero).sortCompare (float Double.zero.neg) = .gt := by decide +kernel
  refine ⟨hfirst, hsecond, hends, fun h => ?_⟩
  have heq := h.eq_trans trivial trivial trivial hfirst hsecond
  exact absurd (hends.symm.trans heq) (by decide)

end Value

end FilterLang
