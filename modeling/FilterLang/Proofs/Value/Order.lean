import FilterLang.Value.Coercion
import FilterLang.Value.Order

/-! Values of one kind are equal exactly where their order says so. -/

namespace FilterLang

theorem Date.compare_eq_iff {a b : Date} : a.compare b = .eq ↔ a = b := by
  rw [Date.compare, Ordering.then_eq_eq, Ordering.then_eq_eq, Std.compare_eq_iff_eq,
    Std.compare_eq_iff_eq, Std.compare_eq_iff_eq, and_assoc]
  cases a
  cases b
  simp

theorem Time.compare_eq_iff {a b : Time} : a.compare b = .eq ↔ a = b := by
  rw [Time.compare, Ordering.then_eq_eq, Ordering.then_eq_eq, Ordering.then_eq_eq,
    Std.compare_eq_iff_eq, Std.compare_eq_iff_eq, Std.compare_eq_iff_eq, Std.compare_eq_iff_eq,
    and_assoc, and_assoc]
  cases a
  cases b
  simp

theorem DateTime.compare_eq_iff {a b : DateTime} : a.compare b = .eq ↔ a = b := by
  rw [DateTime.compare, Ordering.then_eq_eq, Date.compare_eq_iff, Time.compare_eq_iff]
  cases a
  cases b
  simp

namespace Value

/-- What a value is converted to has the kind that was asked for. -/
theorem kind_of_convert? {v w : Value} {k : Kind} (h : v.convert? k = some w) : w.kind = k := by
  rw [convert?.eq_def] at h
  split at h
  case h_7 =>
    split at h
    · cases h
      rfl
    · split at h <;> cases h
      rfl
  case h_14 => cases h
  all_goals first
    | (obtain ⟨_, _, rfl⟩ := Option.map_eq_some_iff.mp h; rfl)
    | (cases h; rfl)

theorem kind_of_coerce? {v w : Value} {k : Kind} (h : v.coerce? k = some w) : w.kind = k := by
  rw [coerce?] at h
  split at h
  · cases h
    assumption
  · exact kind_of_convert? h

theorem equal_comm (x y : Double) : x.equal y = y.equal x := by
  cases x with
  | nan => cases y <;> rfl
  | number s r =>
    cases y with
    | nan => rfl
    | number s' r' =>
      rw [Bool.eq_iff_iff]
      simp only [Double.equal, Double.compare?, beq_iff_eq, Option.some_inj, Std.compare_eq_iff_eq]
      exact eq_comm

/-- Equality of values of one kind is the order's, null aside. -/
theorem equal_eq_compare? {v w : Value} (hkind : v.kind = w.kind) (hnull : w ≠ null) :
    v.equal w = (w.compare? v == some .eq) := by
  cases w with
  | null => exact (hnull rfl).elim
  | float y =>
    cases v <;> cases hkind
    exact equal_comm _ y
  | dateTime u =>
    cases v <;> cases hkind
    rw [Bool.eq_iff_iff]
    simp only [equal, compare?, beq_iff_eq, Option.some_inj, DateTime.compare_eq_iff,
      dateTime.injEq]
    exact eq_comm
  | _ =>
    cases v <;> cases hkind
    rw [Bool.eq_iff_iff]
    simp only [equal, compare?, beq_iff_eq, Option.some_inj, Std.compare_eq_iff_eq, bool.injEq,
      int.injEq, text.injEq, bytes.injEq]
    exact eq_comm

end Value

end FilterLang
