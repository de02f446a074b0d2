import FilterLang.Proofs.Predicate.Restoration
import FilterLang.Proofs.Sql.Splicing

/-! What is bound for a comparison whose text was read again.

A value without a literal of its own comes back as text, and text that is compared with a described
column is converted to the kind of values that the column holds. `Value.rebound` is where this ends
for a value of that kind. Main statement: `values_reread_eq_iff`. -/

namespace FilterLang

open Text Token

/-- The kind of the values that a column of a type holds. -/
def LogicalType.kind? : LogicalType → Option Value.Kind
  | boolean => some .boolean
  | int16 | int32 | int64 => some .integer
  | double | decimal => some .float
  | string => some .text
  | dateTime => some .dateTime
  | bytes => some .bytes
  | guid | interval | custom _ => none

namespace Value

/-- What is bound where the literal of a value stands, for a column that holds its kind. -/
def rebound : Value → Value
  | dateTime t => dateTime t.wholeSecond
  | bytes b => text (display (bytes b))
  | v => v

/-- Whether a literal tells the value to a column that holds its kind. Dates are written to the
second, and no column reads the digits of bytes. -/
def IsRebound : Value → Prop
  | dateTime t => t.time.nanosecond = 0
  | bytes _ => False
  | _ => True

theorem rebound_eq_iff (v : Value) : v.rebound = v ↔ v.IsRebound := by
  cases v with
  | dateTime t =>
    constructor
    · intro h
      exact (congrArg (·.time.nanosecond) (dateTime.inj h)).symm
    · intro h
      obtain ⟨date, time⟩ := t
      obtain ⟨hour, minute, second, nanosecond, _, _, _, _⟩ := time
      obtain rfl : nanosecond = 0 := h
      rfl
  | bytes b =>
    constructor
    · intro h
      cases h
    · exact False.elim
  | _ => exact ⟨fun _ => trivial, fun _ => rfl⟩

variable {type : LogicalType}

theorem columnKind?_of_kind? {k : Kind} (h : type.kind? = some k) (htext : k ≠ .text)
    (hbytes : k ≠ .bytes) : columnKind? type = some k := by
  cases type with
  | string => exact absurd (Option.some.inj h).symm htext
  | bytes => exact absurd (Option.some.inj h).symm hbytes
  | _ => exact h

/-- Null is of no kind that a column holds. -/
theorem isNull_of_kind? {v : Value} (h : type.kind? = some v.kind) : v.isNull = false := by
  cases v with
  | null => cases type <;> cases h
  | _ => rfl

/-- A column leaves the values that it holds as they are. -/
theorem inColumn_of_kind? {v : Value} (h : type.kind? = some v.kind) : v.inColumn type = v := by
  cases v with
  | text s =>
    cases type with
    | string => rfl
    | _ => cases h
  | _ => rfl

/-- Text becomes what it is converted to. -/
theorem inColumn_text {k : Kind} (h : columnKind? type = some k) {s : String} {v : Value}
    (hconvert : (text s).coerce? k = some v) : (text s).inColumn type = v := by
  simp only [inColumn, h, hconvert, Option.getD_some]

theorem coerce?_text_display_int (i : Int64) :
    (text (int i).display).coerce? .integer = some (int i) := by
  simp only [coerce?, kind, convert?, intOfText?_display]
  rfl

theorem coerce?_text_display_float (x : Double) :
    (text (float x).display).coerce? .float = some (float x) := by
  simp only [coerce?, kind, convert?, display, x.isPlain_text.trim_eq, Double.ofText?_text]
  rfl

theorem coerce?_text_display_dateTime (t : DateTime) :
    (text (dateTime t).display).coerce? .dateTime = some (dateTime t.wholeSecond) := by
  simp only [coerce?, kind, convert?, display, DateTime.ofText?_plainText]
  rfl

/-- The column's conversion undoes the literal, one kind at a time. -/
theorem inColumn_reread {v : Value} (h : type.kind? = some v.kind) :
    v.reread.inColumn type = v.rebound := by
  cases v with
  | null => cases isNull_of_kind? h
  | bool b => rfl
  | int i =>
    have hkind : columnKind? type = some .integer := columnKind?_of_kind? h (by decide) (by decide)
    rw [reread]
    split
    · rfl
    · exact inColumn_text hkind (coerce?_text_display_int i)
  | float x =>
    have hkind : columnKind? type = some .float := columnKind?_of_kind? h (by decide) (by decide)
    exact inColumn_text hkind (coerce?_text_display_float x)
  | text s => exact inColumn_of_kind? h
  | dateTime t =>
    have hkind : columnKind? type = some .dateTime := columnKind?_of_kind? h (by decide) (by decide)
    exact inColumn_text hkind (coerce?_text_display_dateTime t)
  | bytes b =>
    cases type with
    | bytes => rfl
    | _ => cases h

theorem isNull_reread (v : Value) : v.reread.isNull = v.isNull := by
  cases v with
  | int i =>
    rw [reread]
    split <;> rfl
  | _ => rfl

end Value

namespace Sql

/-- Every dialect has a type for the columns that hold a kind of value. -/
theorem isMapped_of_kind? (d : Dialect) {type : LogicalType} {k : Value.Kind}
    (h : type.kind? = some k) : (d.nativeType type).isMapped = true := by
  cases type <;> cases h <;> cases d <;> rfl

section Leaf

variable (d : Dialect) {t : Table} {name : String} {column : Column}

/-- A comparison with a described column binds what the column makes of the operand. -/
theorem exists_comparison (hcolumn : t.column? name = some column)
    (hmapped : (d.nativeType column.type).isMapped = true) {c : Comparison} (hc : c ≠ .like)
    {v : Value} (hv : v.isNull = false) :
    ∃ f b, comparison d t name ⟨c, v⟩ {} = .ok (f, b) ∧
      b.parameters.map (·.value) = [v.inColumn column.type] := by
  have htype : boundNativeType d t name (v.inColumn column.type) =
      .ok (some (d.nativeType column.type)) := by
    rw [boundNativeType, boundType?, hcolumn]
    exact if_pos hmapped
  have hvalue : comparedValue t name v = v.inColumn column.type := by
    rw [comparedValue, hcolumn]
  rw [comparison_bound d t name hc (fun _ => hv), hvalue, Binder.bind, htype]
  exact ⟨_, _, rfl, rfl⟩

theorem exists_compileQualifier (hcolumn : t.column? name = some column)
    (hmapped : (d.nativeType column.type).isMapped = true) {c : Comparison} (hc : c ≠ .like)
    {v : Value} (hv : v.isNull = false) {q : Qualifier}
    (hq : q = .column name ⟨c, v⟩ ∨ q = .property name ⟨c, v⟩) :
    ∃ command, compileQualifier d t q = .ok command ∧
      command.values = [v.inColumn column.type] := by
  obtain ⟨f, b, hcomparison, hvalues⟩ := exists_comparison d hcolumn hmapped hc hv
  have hcondition : condition d t q {} = .ok (f, b) := by
    rcases hq with rfl | rfl <;> rw [condition, hcomparison]
  refine ⟨⟨d, f, b.parameters⟩, ?_, hvalues⟩
  rw [compileQualifier, hcondition]
  rfl

/-- A comparison of a described column with a value of the kind that the column holds binds the
value. Its text is read as a comparison that binds the value again exactly if the value is neither
bytes nor a date with a fraction of a second. -/
theorem values_reread_eq_iff (hname : IsName name) (hcolumn : t.column? name = some column)
    {c : Comparison} (hc : c ≠ .like) {v : Value} (hv : column.type.kind? = some v.kind)
    {q : Qualifier} (hq : q = .column name ⟨c, v⟩ ∨ q = .property name ⟨c, v⟩) :
    ∃ q' command command', parse q.display [] = .ok q' ∧ compileQualifier d t q = .ok command ∧
      compileQualifier d t q' = .ok command' ∧ command.values = [v] ∧
      (command'.values = [v] ↔ v.IsRebound) := by
  have hmapped := isMapped_of_kind? d hv
  have hnull : v.isNull = false := Value.isNull_of_kind? hv
  have hnull' : v.reread.isNull = false := v.isNull_reread.trans hnull
  have hwritable : q.Writable := by
    rcases hq with rfl | rfl
    · exact .column hname _
    · exact .property hname _
  have hreread : q.reread = .property name ⟨c, v.reread⟩ := by
    rcases hq with rfl | rfl <;> rw [Qualifier.reread]
  obtain ⟨command, hcompile, hvalues⟩ := exists_compileQualifier d hcolumn hmapped hc hnull hq
  obtain ⟨command', hcompile', hvalues'⟩ :=
    exists_compileQualifier d hcolumn hmapped hc hnull' (.inr hreread)
  rw [Value.inColumn_of_kind? hv] at hvalues
  rw [Value.inColumn_reread hv] at hvalues'
  refine ⟨q.reread, command, command', (Qualifier.writes_display [] hwritable).parse_eq, hcompile,
    hcompile', hvalues, ?_⟩
  rw [hvalues', List.singleton_inj, Value.rebound_eq_iff]

end Leaf

/-- The least integer, which is written as text, in a column that is found in another case. -/
theorem values_reread_least :
    let t : Table := ⟨"File", [⟨"Offset", .int64, none, true, false, false⟩]⟩
    let v : Value := .int (-9223372036854775808)
    let q : Qualifier := .column "offset" ⟨.greaterThan, v⟩
    IsName "offset" ∧ (t.column? "offset").map (·.type.kind?) = some (some v.kind) ∧
      ∃ q' command command', parse q.display [] = .ok q' ∧
        compileQualifier .oracle t q = .ok command ∧
        compileQualifier .oracle t q' = .ok command' ∧ command.values = [v] ∧
        command'.values = [v] := by
  intro t v q
  have hname : IsName "offset" := ⟨by decide, by decide⟩
  have hcolumn : t.column? "offset" = some ⟨"Offset", .int64, none, true, false, false⟩ := by decide
  have hlike : Comparison.greaterThan ≠ .like := nofun
  have hheld : LogicalType.int64.kind? = some v.kind := rfl
  obtain ⟨q', command, command', hparse, hcompile, hcompile', hvalues, hiff⟩ :=
    values_reread_eq_iff .oracle hname hcolumn hlike hheld (.inl rfl)
  exact ⟨hname, by rw [hcolumn]; rfl, q', command, command', hparse, hcompile, hcompile', hvalues,
    hiff.mpr trivial⟩

/-- The digits of bytes are bound as text, also for a column of bytes. -/
theorem values_reread_bytes :
    let t : Table := ⟨"T", [⟨"x", .bytes, none, true, false, false⟩]⟩
    let q : Qualifier := .column "x" ⟨.equals, .bytes [0xAB]⟩
    q.display = "x = 'AB'" ∧ ∃ q' command command', parse q.display [] = .ok q' ∧
      compileQualifier (.generic false) t q = .ok command ∧
      compileQualifier (.generic false) t q' = .ok command' ∧
      command.values = [.bytes [0xAB]] ∧ command'.values = [.text "AB"] := by
  intro t q
  have hq : q.Writable := .column ⟨by decide, by decide⟩ _
  have hliteral : Value.reread (.bytes [0xAB]) = .text "AB" := by decide
  have hreread : q.reread = .property "x" ⟨.equals, .text "AB"⟩ := by
    rw [Qualifier.reread, hliteral]
  have hparse := (Qualifier.writes_display [] hq).parse_eq
  rw [hreread] at hparse
  exact ⟨by decide, _, _, _, hparse, rfl, rfl, rfl, rfl⟩

end Sql
end FilterLang
