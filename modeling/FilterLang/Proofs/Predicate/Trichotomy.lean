import FilterLang.Predicate.Basic
import FilterLang.Proofs.Value.Order

/-! Comparisons of an operand and a subject agree with one another.

Equality and order are decided apart, the one by equality after conversion and the other by
comparison, but both are read off one order of the two (`matchesOperand_eq`, `holds_of_order`).
Where there is none, all that ask for it fail alike. Main statement: `holds_trichotomy`. -/

namespace FilterLang

namespace Value

theorem isNull_eq_false {v : Value} (h : v ≠ .null) : v.isNull = false := by
  cases v with
  | null => exact (h rfl).elim
  | _ => rfl

end Value

/-- The comparisons that ask for an order. -/
def Comparison.relational : List Comparison :=
  [lessThan, lessOrEqual, greaterThan, greaterOrEqual]

namespace Predicate

open Value

/-- Equality is an order too, null aside. -/
theorem matchesOperand_eq {w v : Value} (hw : w ≠ .null) (hv : v ≠ .null) :
    matchesOperand w v = (order? w v == some .eq) := by
  rw [matchesOperand, order?]
  · cases v.numericCompare? w with
    | some o => rfl
    | none =>
      dsimp only
      cases hcoerce : w.coerce? v.kind with
      | none => rfl
      | some w' => exact equal_eq_compare? (kind_of_coerce? hcoerce) hv
  · exact hw
  · exact hv
  · exact fun h _ => hw h

theorem matchesOperand_null_iff {w v : Value} (h : w = .null ∨ v = .null) :
    matchesOperand w v = decide (w = .null ∧ v = .null) := by
  rcases h with rfl | rfl
  · cases v <;> rfl
  · cases w <;> rfl

variable [Wildcard.Engine]

/-- A comparison of order with null does not hold. -/
theorem holds_of_null {c : Comparison} (hc : c ∈ Comparison.relational) {w v : Value}
    (h : w = .null ∨ v = .null) : (⟨c, w⟩ : Predicate).holds v = .ok false := by
  have hnull : (v.isNull || w.isNull) = true := by
    rcases h with rfl | rfl
    · exact Bool.or_true _
    · exact Bool.true_or _
  cases c <;> first | exact absurd hc (by decide) | exact if_pos hnull

theorem holds_of_order {c : Comparison} (hc : c ∈ Comparison.relational) {w v : Value}
    (hw : w ≠ .null) (hv : v ≠ .null) :
    (⟨c, w⟩ : Predicate).holds v = match order? w v with
      | some o => .ok (c.accepts o)
      | none => .error (.notComparable v.kind w.kind) := by
  have hnull : ¬(v.isNull || w.isNull) = true := by
    rw [isNull_eq_false hv, isNull_eq_false hw]
    decide
  cases c <;> first | exact absurd hc (by decide) | exact if_neg hnull

/-- Operand and subject without an order: whatever asks for one fails with one error, and they are
not equal. -/
structure Incomparable (w v : Value) : Prop where
  relational : ∀ c ∈ Comparison.relational,
    (⟨c, w⟩ : Predicate).holds v = .error (.notComparable v.kind w.kind)
  equals : (⟨.equals, w⟩ : Predicate).holds v = .ok false

/-- Operand and subject of which exactly one of less, equal and greater holds, and the others
follow from these. -/
structure Comparable (w v : Value) (o : Ordering) : Prop where
  lessThan : (⟨.lessThan, w⟩ : Predicate).holds v = .ok (o == .lt)
  equals : (⟨.equals, w⟩ : Predicate).holds v = .ok (o == .eq)
  greaterThan : (⟨.greaterThan, w⟩ : Predicate).holds v = .ok (o == .gt)
  lessOrEqual : (⟨.lessOrEqual, w⟩ : Predicate).holds v = .ok (o == .lt || o == .eq)
  greaterOrEqual : (⟨.greaterOrEqual, w⟩ : Predicate).holds v = .ok (o == .gt || o == .eq)

theorem incomparable_of_order? {w v : Value} (hw : w ≠ .null) (hv : v ≠ .null)
    (h : order? w v = none) : Incomparable w v where
  relational c hc := by rw [holds_of_order hc hw hv, h]
  equals := by
    change Except.ok (matchesOperand w v) = _
    rw [matchesOperand_eq hw hv, h]
    rfl

theorem comparable_of_order? {w v : Value} (hw : w ≠ .null) (hv : v ≠ .null) {o : Ordering}
    (h : order? w v = some o) : Comparable w v o := by
  have hrelational : ∀ c ∈ Comparison.relational,
      (⟨c, w⟩ : Predicate).holds v = .ok (c.accepts o) := by
    intro c hc
    rw [holds_of_order hc hw hv, h]
  have hequals : (⟨.equals, w⟩ : Predicate).holds v = .ok (o == .eq) := by
    change Except.ok (matchesOperand w v) = _
    rw [matchesOperand_eq hw hv, h]
    cases o <;> rfl
  refine ⟨hrelational _ (by decide), hequals, hrelational _ (by decide), ?_, ?_⟩
  · rw [hrelational .lessOrEqual (by decide)]
    cases o <;> rfl
  · rw [hrelational .greaterOrEqual (by decide)]
    cases o <;> rfl

/-- Apart from null, all comparisons of order fail alike and equality does not hold, or all of them
say the same of the order of operand and subject. Inequality is the negation of equality, and with
null nothing holds but the equality of null with itself. -/
theorem holds_trichotomy (w v : Value) :
    (w ≠ .null → v ≠ .null → Incomparable w v ∨ ∃ o, Comparable w v o) ∧
      (∃ b, (⟨.equals, w⟩ : Predicate).holds v = .ok b ∧
        (⟨.notEqual, w⟩ : Predicate).holds v = .ok !b) ∧
      (w = .null ∨ v = .null →
        (∀ c ∈ Comparison.relational, (⟨c, w⟩ : Predicate).holds v = .ok false) ∧
          (⟨.equals, w⟩ : Predicate).holds v = .ok (decide (w = .null ∧ v = .null))) := by
  refine ⟨fun hw hv => ?_, ⟨matchesOperand w v, rfl, rfl⟩, fun h => ⟨?_, ?_⟩⟩
  · cases horder : order? w v with
    | none => exact .inl (incomparable_of_order? hw hv horder)
    | some o => exact .inr ⟨o, comparable_of_order? hw hv horder⟩
  · exact fun c hc => holds_of_null hc h
  · exact congrArg Except.ok (matchesOperand_null_iff h)

end Predicate

end FilterLang
