import FilterLang.Proofs.Calendar.Text
import FilterLang.Proofs.Double.Text
import FilterLang.Proofs.Predicate.Trichotomy
import FilterLang.Proofs.Qualifier.Rereading

/-! Which operands a predicate gets back when its literal is read.

A predicate sees its operand and a subject through their order alone (`holds_eq`), and an operand
without a literal of its own comes back as text, which is converted to the kind of the subject.
`Value.RestoredFor` says for which subjects the conversion gives what was written. Main statement:
`holds_reread_iff`. -/

namespace FilterLang

open Text

/-! ### Values read from plain text -/

namespace Value

theorem isPlain_hex (b : List UInt8) : IsPlain (display (bytes b)).toList := by
  have hdigit : ∀ n < 16, (if n < 10 then Char.ofNat (48 + n) else Char.ofNat (55 + n)) ∈
      plainCharacters := by
    decide +kernel
  rw [display, String.toList_ofList]
  refine .of_forall fun c hc => ?_
  obtain ⟨byte, -, hc⟩ := List.mem_flatMap.mp hc
  have hbyte := byte.toNat_lt
  simp only [hexByte, List.mem_cons, List.not_mem_nil, or_false] at hc
  rcases hc with rfl | rfl
  · exact hdigit _ (by omega)
  · exact hdigit _ (by omega)

theorem boolOfText?_eq_none {s : String} (h : ∀ c ∈ s.toList, c.toLower ≠ 'u' ∧ c.toLower ≠ 'l') :
    boolOfText? s = none := by
  have hmem : ∀ c ∈ (String.ofList (trim s.toList)).toList, c ∈ s.toList := by
    intro c hc
    rw [String.toList_ofList, trim, List.mem_reverse] at hc
    have hc := (List.dropWhile_sublist _).mem hc
    rw [List.mem_reverse] at hc
    exact (List.dropWhile_sublist _).mem hc
  have htrue : sameWord (String.ofList (trim s.toList)) "true" = false :=
    sameWord_eq_false (by decide : 'u' ∈ "true".toList) fun c hc => (h c (hmem c hc)).1
  have hfalse : sameWord (String.ofList (trim s.toList)) "false" = false :=
    sameWord_eq_false (by decide : 'l' ∈ "false".toList) fun c hc => (h c (hmem c hc)).2
  rw [boolOfText?]
  simp only [htrue, hfalse]
  rfl

theorem isPlain_display_int (i : Int64) : IsPlain (display (int i)).toList := by
  rw [display, String.toList_ofList]
  exact isPlain_intText i.toInt

theorem intOfText?_display (i : Int64) :
    (intOfText? (trim (display (int i)).toList)).bind int64OfInt? = some i := by
  rw [(isPlain_display_int i).trim_eq, display, String.toList_ofList, intOfText?_intText,
    Option.bind_some, int64OfInt?_toInt]

/-- The text of a negative integer is read as the double nearest to the integer. -/
theorem ofText?_display_int {i : Int64} (h : i.toInt < 0) :
    Double.ofText? (trim (display (int i)).toList) = some (.ofInt i.toInt) := by
  have hds : ∀ d ∈ decimal i.toInt.natAbs, d.isDigit = true := fun _ => isDigit_of_mem_decimal
  have hread := Double.decimal?_digits true (decimal_ne_nil _) hds
  have hle := i.le_toInt
  rw [digitsValue_decimal, Double.ofDecimal_zero true (by omega) (by omega)] at hread
  rw [(isPlain_display_int i).trim_eq, display, String.toList_ofList, intText, if_pos h,
    Double.ofText?, Double.ofInt, decide_eq_true h]
  simp only [takeSign, hread]

theorem boolOfText?_plainText (t : DateTime) : boolOfText? t.plainText = none := by
  have hminus : '-' ∈ (String.ofList t.plainText.toList).toList := by
    simp [t.toList_plainText, Calendar.dateText]
  have hword := fun word => sameWord_minus word hminus
  rw [boolOfText?, t.trim_plainText]
  simp only [hword "true" (by simp), hword "false" (by simp)]
  rfl

theorem intOfText?_plainText (t : DateTime) : intOfText? (trim t.plainText.toList) = none := by
  obtain ⟨negative, ds, rest, hne, hds, hsign⟩ := t.exists_takeSign_plainText
  rw [t.trim_plainText, intOfText?, hsign]
  have hall : (ds ++ '-' :: rest).all Char.isDigit = false := by
    rw [List.all_eq_false]
    exact ⟨'-', List.mem_append_right _ List.mem_cons_self, by decide⟩
  simp only [hall, Bool.not_false, Bool.or_true, if_true]

theorem ofText?_plainText (t : DateTime) :
    Double.ofText? (trim t.plainText.toList) = none := by
  obtain ⟨negative, ds, rest, hne, hds, hsign⟩ := t.exists_takeSign_plainText
  rw [t.trim_plainText]
  exact Double.ofText?_minus hsign hds

/-! ### Restored operands -/

/-- Whether what is read where an operand was written compares with a subject as the operand. -/
def RestoredFor : (operand subject : Value) → Prop
  | int i, float y =>
    0 ≤ i.toInt ∨ y.compare? (.ofInt i.toInt) = (Double.compareInt? i y).map Ordering.swap
  | int i, bytes _ => 0 ≤ i.toInt
  | float x, int j =>
    ((intOfText? x.text.toList).bind int64OfInt?).map (compare j) = Double.compareInt? j x
  | dateTime t, dateTime u => u.compare t.wholeSecond = u.compare t
  | bytes b, int _ => (intOfText? (b.flatMap hexByte)).bind int64OfInt? = none
  | bytes b, float y => (Double.ofText? (b.flatMap hexByte)).bind y.compare? = none
  | bytes b, bytes b' =>
    compare b' ((b.flatMap hexByte).flatMap String.utf8EncodeChar) = compare b' b
  | float _, bytes _ | dateTime _, bytes _ | bytes _, text _ => False
  | _, _ => True

end Value

/-- What a comparison says of a subject, given the order of the two, if it is one of order. -/
def Comparison.outcome (c : Comparison) (o : Option Ordering) : Option Bool :=
  match c with
  | .equals => some (o == some .eq)
  | .notEqual => some (o != some .eq)
  | c => o.map c.accepts

theorem Comparison.outcome_inj {o o' : Option Ordering}
    (hlt : lessThan.outcome o = lessThan.outcome o')
    (hgt : greaterThan.outcome o = greaterThan.outcome o') : o = o' := by
  cases o with
  | none =>
    cases o' with
    | none => rfl
    | some o' => cases hlt
  | some o =>
    cases o' with
    | none => cases hlt
    | some o' =>
      cases o <;> cases o' <;>
        first | rfl | exact absurd hlt (by decide) | exact absurd hgt (by decide)

namespace Predicate

open Value

/-! ### Orders -/

/-- Text compares with every kind as what it is converted to. -/
theorem order?_text (s : String) (v : Value) :
    order? (text s) v = match v with
      | .null => none
      | .bool a => (boolOfText? s).map (compare a)
      | .int j => ((intOfText? (trim s.toList)).bind int64OfInt?).map (compare j)
      | .float y => (Double.ofText? (trim s.toList)).bind y.compare?
      | .text t => some (compare t s)
      | .dateTime u => (DateTime.ofText? s).map u.compare
      | .bytes b => some (compare b (s.toList.flatMap String.utf8EncodeChar)) := by
  cases v with
  | null => rfl
  | bool a =>
    simp only [order?, numericCompare?, coerce?, kind, convert?]
    cases boolOfText? s <;> rfl
  | int j =>
    simp only [order?, numericCompare?, coerce?, kind, convert?]
    cases (intOfText? (trim s.toList)).bind int64OfInt? <;> rfl
  | float y =>
    simp only [order?, numericCompare?, coerce?, kind, convert?]
    cases Double.ofText? (trim s.toList) <;> rfl
  | text t => rfl
  | dateTime u =>
    simp only [order?, numericCompare?, coerce?, kind, convert?]
    cases DateTime.ofText? s <;> rfl
  | bytes b => rfl

/-- An integer has an order with all but what is not a number. -/
theorem compareInt?_eq_none {i : Int64} {x : Double} (h : Double.compareInt? i x = none) :
    x = .nan := by
  obtain ⟨negative, rank, hbound⟩ : ∃ negative rank, Double.intBound = .number negative rank :=
    ⟨_, _, rfl⟩
  cases x with
  | nan => rfl
  | number negative' rank' =>
    simp only [Double.compareInt?, hbound, Double.neg, Double.compare?] at h
    split at h <;> try split at h
    all_goals cases h

theorem order?_int_float (i : Int64) (y : Double) :
    order? (int i) (float y) = (Double.compareInt? i y).map Ordering.swap := by
  rw [order?, numericCompare?]
  cases h : Double.compareInt? i y with
  | none => rw [compareInt?_eq_none h]; rfl
  | some o => rfl

theorem order?_float_int (x : Double) (j : Int64) :
    order? (float x) (int j) = Double.compareInt? j x := by
  rw [order?, numericCompare?]
  cases h : Double.compareInt? j x with
  | none => rw [compareInt?_eq_none h]; rfl
  | some o => rfl

theorem order?_float_float (x y : Double) : order? (float x) (float y) = y.compare? x := by
  rw [order?, numericCompare?]
  cases h : y.compare? x with
  | none => exact h
  | some o => rfl

/-- Plain text is read neither as a truth value nor as a date. -/
theorem order?_plain {s : String} (h : IsPlain s.toList) :
    (∀ a, order? (text s) (.bool a) = none) ∧ ∀ t, order? (text s) (.dateTime t) = none := by
  have htail := h.minus_notMem_tail
  rw [← h.trim_eq] at htail
  constructor
  · intro a
    rw [order?_text, boolOfText?_eq_none h.toLower_ne]
    rfl
  · intro t
    rw [order?_text, DateTime.ofText?_eq_none htail]
    rfl

theorem order?_reread_int {i : Int64} (h : i.toInt < 0) (v : Value) :
    order? (text (int i).display) v = order? (int i) v ↔ (int i).RestoredFor v := by
  obtain ⟨hbool, hdateTime⟩ := order?_plain (isPlain_display_int i)
  cases v with
  | null => exact ⟨fun _ => trivial, fun _ => rfl⟩
  | bool a =>
    have hnone : order? (int i) (.bool a) = none := by
      have hzero : i ≠ 0 := by
        rintro rfl
        exact Int.lt_irrefl 0 h
      have hone : i ≠ 1 := by
        rintro rfl
        exact absurd h (by decide)
      simp [order?, numericCompare?, coerce?, kind, convert?, hzero, hone]
    rw [hbool, hnone]
    exact ⟨fun _ => trivial, fun _ => rfl⟩
  | int j =>
    rw [order?_text]
    dsimp only
    rw [intOfText?_display]
    exact ⟨fun _ => trivial, fun _ => rfl⟩
  | float y =>
    rw [order?_text]
    dsimp only
    rw [ofText?_display_int h, order?_int_float]
    exact ⟨.inr, fun h' => h'.resolve_left (Int.not_le.mpr h)⟩
  | text t => exact ⟨fun _ => trivial, fun _ => rfl⟩
  | dateTime u => exact ⟨fun _ => trivial, fun _ => hdateTime u⟩
  | bytes b =>
    refine ⟨fun hsome => (Option.some_ne_none _ hsome).elim, fun hle => ?_⟩
    exact (Int.not_le.mpr h hle).elim

theorem order?_reread_float (x : Double) (v : Value) :
    order? (text x.text) v = order? (float x) v ↔ (float x).RestoredFor v := by
  obtain ⟨hbool, hdateTime⟩ := order?_plain x.isPlain_text
  cases v with
  | null => exact ⟨fun _ => trivial, fun _ => rfl⟩
  | bool a => exact ⟨fun _ => trivial, fun _ => hbool a⟩
  | int j => rw [order?_text, order?_float_int, x.isPlain_text.trim_eq, RestoredFor]
  | float y =>
    rw [order?_text]
    dsimp only
    rw [x.isPlain_text.trim_eq, Double.ofText?_text, order?_float_float]
    exact ⟨fun _ => trivial, fun _ => rfl⟩
  | text t => exact ⟨fun _ => trivial, fun _ => rfl⟩
  | dateTime u => exact ⟨fun _ => trivial, fun _ => hdateTime u⟩
  | bytes b => exact ⟨fun hsome => Option.some_ne_none _ hsome, False.elim⟩

theorem order?_reread_dateTime (t : DateTime) (v : Value) :
    order? (text t.plainText) v = order? (dateTime t) v ↔ (dateTime t).RestoredFor v := by
  rw [order?_text]
  cases v with
  | null => exact ⟨fun _ => trivial, fun _ => rfl⟩
  | bool a =>
    dsimp only
    rw [boolOfText?_plainText]
    exact ⟨fun _ => trivial, fun _ => rfl⟩
  | int j =>
    dsimp only
    rw [intOfText?_plainText]
    exact ⟨fun _ => trivial, fun _ => rfl⟩
  | float y =>
    dsimp only
    rw [ofText?_plainText]
    exact ⟨fun _ => trivial, fun _ => rfl⟩
  | text s => exact ⟨fun _ => trivial, fun _ => rfl⟩
  | dateTime u =>
    dsimp only
    rw [DateTime.ofText?_plainText]
    exact ⟨fun h => Option.some.inj h, congrArg some⟩
  | bytes b => exact ⟨fun hsome => Option.some_ne_none _ hsome, False.elim⟩

theorem order?_reread_bytes (b : List UInt8) (v : Value) :
    order? (text (bytes b).display) v = order? (bytes b) v ↔ (bytes b).RestoredFor v := by
  have hplain := isPlain_hex b
  obtain ⟨hbool, hdateTime⟩ := order?_plain hplain
  have hdisplay : (bytes b).display.toList = b.flatMap hexByte := String.toList_ofList
  cases v with
  | null => exact ⟨fun _ => trivial, fun _ => rfl⟩
  | bool a => exact ⟨fun _ => trivial, fun _ => hbool a⟩
  | int j =>
    rw [order?_text]
    dsimp only
    rw [hplain.trim_eq, hdisplay]
    exact Option.map_eq_none_iff
  | float y =>
    rw [order?_text]
    dsimp only
    rw [hplain.trim_eq, hdisplay]
    exact Iff.rfl
  | text t => exact ⟨fun hsome => Option.some_ne_none _ hsome, False.elim⟩
  | dateTime u => exact ⟨fun _ => trivial, fun _ => hdateTime u⟩
  | bytes b' =>
    rw [order?_text]
    dsimp only
    rw [hdisplay]
    exact ⟨fun h => Option.some.inj h, congrArg some⟩

/-- What is read has the order of what was written exactly with the subjects it is restored for. -/
theorem order?_reread_iff (w v : Value) :
    order? w.reread v = order? w v ↔ w.RestoredFor v := by
  cases w with
  | null => exact ⟨fun _ => by cases v <;> trivial, fun _ => rfl⟩
  | bool a => exact ⟨fun _ => by cases v <;> trivial, fun _ => rfl⟩
  | int i =>
    rw [reread]
    split
    · rename_i h
      refine ⟨fun _ => ?_, fun _ => rfl⟩
      cases v with
      | float y => exact .inl h
      | bytes b => exact h
      | _ => trivial
    · rename_i h
      exact order?_reread_int (Int.not_le.mp h) v
  | float x => exact order?_reread_float x v
  | text s => exact ⟨fun _ => by cases v <;> trivial, fun _ => rfl⟩
  | dateTime t => exact order?_reread_dateTime t v
  | bytes b => exact order?_reread_bytes b v

/-! ### Predicates -/

theorem display_reread (w : Value) : w.reread.display = w.display := by
  cases w with
  | int i =>
    rw [reread]
    split <;> rfl
  | _ => rfl

theorem reread_eq_null {w : Value} : w.reread = .null ↔ w = .null := by
  cases w with
  | int i =>
    rw [reread]
    split <;> simp
  | null => exact Iff.rfl
  | _ => simp [reread]

theorem matchesOperand_null {w : Value} (h : w ≠ .null) : matchesOperand w .null = false := by
  cases w with
  | null => exact (h rfl).elim
  | _ => rfl

theorem restoredFor_null (w : Value) : w.RestoredFor .null := by
  cases w <;> trivial

variable [Wildcard.Engine]

theorem fitsPattern_reread (w v : Value) : fitsPattern w.reread v = fitsPattern w v := by
  cases v with
  | text s =>
    by_cases hw : w = .null
    · rw [reread_eq_null.mpr hw, hw]
    · rw [fitsPattern, fitsPattern, display_reread]
      · exact hw
      · exact fun h => hw (reread_eq_null.mp h)
  | _ => rfl

/-- A predicate other than a pattern sees operand and subject through their order alone. -/
theorem holds_eq {w v : Value} (hw : w ≠ .null) (hv : v ≠ .null) {c : Comparison}
    (hc : c ≠ .like) : ((⟨c, w⟩ : Predicate).holds v).toOption = c.outcome (order? w v) := by
  cases c with
  | equals => exact congrArg some (matchesOperand_eq hw hv)
  | notEqual => exact congrArg (fun b => some !b) (matchesOperand_eq hw hv)
  | like => exact (hc rfl).elim
  | _ =>
    rw [holds_of_order (by decide) hw hv]
    cases order? w v <;> rfl

/-- Every predicate comes back with the outcomes that it had exactly for the subjects for which its
operand is restored. -/
theorem holds_reread_iff (w v : Value) :
    (∀ c, ((⟨c, w.reread⟩ : Predicate).holds v).toOption =
      ((⟨c, w⟩ : Predicate).holds v).toOption) ↔ w.RestoredFor v := by
  -- Null has no order but equals itself, so it stands apart on both sides.
  by_cases hw : w = .null
  · subst hw
    exact ⟨fun _ => by cases v <;> trivial, fun _ _ => rfl⟩
  have hw' : w.reread ≠ .null := fun h => hw (reread_eq_null.mp h)
  by_cases hv : v = .null
  · subst hv
    refine ⟨fun _ => restoredFor_null w, fun _ c => ?_⟩
    cases c with
    | equals => exact congrArg some ((matchesOperand_null hw').trans (matchesOperand_null hw).symm)
    | notEqual =>
      exact congrArg (fun b => some !b)
        ((matchesOperand_null hw').trans (matchesOperand_null hw).symm)
    | _ => rfl
  rw [← order?_reread_iff]
  constructor
  · intro h
    have hlt := h .lessThan
    have hgt := h .greaterThan
    rw [holds_eq hw' hv (by decide), holds_eq hw hv (by decide)] at hlt hgt
    exact Comparison.outcome_inj hlt hgt
  · intro h c
    by_cases hc : c = .like
    · subst hc
      exact congrArg Except.toOption (fitsPattern_reread w v)
    · rw [holds_eq hw' hv hc, holds_eq hw hv hc, h]

end Predicate

end FilterLang
