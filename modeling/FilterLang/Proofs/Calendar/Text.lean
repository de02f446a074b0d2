import FilterLang.Calendar.Text
import FilterLang.Proofs.Text.Plain

/-! The plain text of a date with a time is read as the date with the time, cut to the second, and a
text without a minus sign behind its first character is read as no date. -/

namespace FilterLang

open Text

namespace Calendar

/-- A number ends where its width or its digits end. -/
theorem takeNumber?_append {width : Nat} {ds rest : List Char} (hne : ds ≠ [])
    (hds : ∀ d ∈ ds, d.isDigit = true) (hwidth : ds.length ≤ width)
    (hrest : ds.length = width ∨ ∀ c ∈ rest.head?, c.isDigit = false) :
    takeNumber? width (ds ++ rest) = some (digitsValue ds, rest) := by
  have hend : (rest.take (width - ds.length)).takeWhile Char.isDigit = [] := by
    rcases hrest with hwidth | hrest
    · rw [hwidth, Nat.sub_self, List.take_zero, List.takeWhile_nil]
    · cases rest with
      | nil => rw [List.take_nil, List.takeWhile_nil]
      | cons c rest =>
        cases width - ds.length with
        | zero => rw [List.take_zero, List.takeWhile_nil]
        | succ n =>
          rw [List.take_succ_cons, List.takeWhile_cons_of_neg]
          rw [hrest c rfl]
          exact Bool.false_ne_true
  have hdigits : ((ds ++ rest).take width).takeWhile Char.isDigit = ds := by
    rw [List.take_append, List.take_of_length_le hwidth, List.takeWhile_append_of_pos hds, hend,
      List.append_nil]
  rw [takeNumber?]
  simp [hdigits, hne]

theorem takeShort?_padded {n : Nat} (h : n < 100) (rest : List Char) :
    takeShort? (padded 2 n ++ rest) = some (n, rest) := by
  have hne := padded_ne_nil 2 n
  have hlength := length_padded (n := n) (by decide : 0 < 2) h
  have hds : ∀ d ∈ padded 2 n, d.isDigit = true := fun d hd => isDigit_of_mem_padded hd
  have hhead := fun c hc => isBlank_of_isDigit (isDigit_of_head? hne hds rest c hc)
  rw [takeShort?, dropWhile_eq_self hhead,
    takeNumber?_append hne hds (Nat.le_of_eq hlength) (.inl hlength), digitsValue_padded]

theorem takeYear?_unsigned {cs : List Char} (h : ∀ c ∈ cs.head?, c ≠ '-' ∧ c ≠ '+') :
    takeYear? cs = (takeNumber? 4 cs).map fun (n, rest) => ((n : Int), rest) := by
  rw [takeYear?.eq_def]
  split
  · exact ((h '-' rfl).1 rfl).elim
  · exact ((h '+' rfl).2 rfl).elim
  · rfl

/-- The text of a year is a sign, if there is one, and digits. -/
theorem yearText_cases (year : Int) :
    (0 ≤ year ∧ year ≤ 9999 ∧ yearText year = padded 4 year.natAbs) ∨
      (year < 0 ∧ yearText year = '-' :: padded 4 year.natAbs) ∨
      (0 ≤ year ∧ yearText year = '+' :: padded 4 year.natAbs) := by
  rw [yearText]
  split
  · rename_i h
    have hnat : year.toNat = year.natAbs := by omega
    exact .inl ⟨h.1, h.2, by rw [hnat]⟩
  · split
    · exact .inr (.inl ⟨‹_›, rfl⟩)
    · exact .inr (.inr ⟨by omega, rfl⟩)

theorem takeYear?_yearText (year : Int) (rest : List Char) :
    takeYear? (yearText year ++ '-' :: rest) = some (year, '-' :: rest) := by
  have hne := padded_ne_nil 4 year.natAbs
  have hds : ∀ d ∈ padded 4 year.natAbs, d.isDigit = true := fun d hd => isDigit_of_mem_padded hd
  have hminus : ∀ c ∈ ('-' :: rest).head?, c.isDigit = false := by
    rintro _ ⟨⟩
    decide
  have hlength : (padded 4 year.natAbs).length ≤ (padded 4 year.natAbs ++ '-' :: rest).length := by
    rw [List.length_append]
    exact Nat.le_add_right ..
  have hsigned := takeNumber?_append hne hds hlength (.inr hminus)
  rcases yearText_cases year with ⟨h, hle, htext⟩ | ⟨h, htext⟩ | ⟨h, htext⟩
  · have hlength := length_padded (n := year.natAbs) (by decide : 0 < 4) (by omega)
    have hhead := fun c hc =>
      not_sign_of_isDigit (isDigit_of_head? hne hds ('-' :: rest) c hc)
    rw [htext, takeYear?_unsigned hhead,
      takeNumber?_append hne hds (Nat.le_of_eq hlength) (.inl hlength), digitsValue_padded]
    exact congrArg (fun year => some (year, '-' :: rest)) (Int.natAbs_of_nonneg h)
  · rw [htext, List.cons_append, takeYear?, hsigned, digitsValue_padded]
    have hyear : -(year.natAbs : Int) = year := by omega
    exact congrArg (fun year => some (year, '-' :: rest)) hyear
  · rw [htext, List.cons_append, takeYear?, hsigned, digitsValue_padded]
    exact congrArg (fun year => some (year, '-' :: rest)) (Int.natAbs_of_nonneg h)

theorem isBlank_head?_yearText (year : Int) (rest : List Char) :
    ∀ c ∈ (yearText year ++ rest).head?, isBlank c = false := by
  have hne := padded_ne_nil 4 year.natAbs
  have hds : ∀ d ∈ padded 4 year.natAbs, d.isDigit = true := fun d hd => isDigit_of_mem_padded hd
  rcases yearText_cases year with ⟨-, -, htext⟩ | ⟨-, htext⟩ | ⟨-, htext⟩
  · rw [htext]
    exact fun c hc => isBlank_of_isDigit (isDigit_of_head? hne hds rest c hc)
  · rw [htext]
    rintro _ ⟨⟩
    decide
  · rw [htext]
    rintro _ ⟨⟩
    decide

theorem read?_cons {r r' : Reading} {field : Field} {fields : List Field} {cs rest : List Char}
    (h : field.read? r cs = some (r', rest)) :
    read? r (field :: fields) cs = read? r' fields rest := by
  rw [read?, h]
  rfl

theorem read?_literal (r : Reading) (fields : List Field) (c : Char) (rest : List Char) :
    read? r (.literal c :: fields) (c :: rest) = read? r fields rest :=
  read?_cons (by rw [Field.read?, if_pos rfl])

theorem read?_year (r : Reading) (fields : List Field) (year : Int) (rest : List Char) :
    read? r (.year :: fields) (yearText year ++ '-' :: rest) =
      read? { r with year := year } fields ('-' :: rest) := by
  refine read?_cons ?_
  rw [Field.read?, dropWhile_eq_self (isBlank_head?_yearText year _), takeYear?_yearText]
  rfl

/-- A number of two digits is read by each of the parts that sets a number of at most two. -/
theorem read?_short {r : Reading} {field : Field} (set : Nat → Reading)
    (hfield : ∀ cs, field.read? r cs = (takeShort? cs).map fun (n, rest) => (set n, rest))
    {n : Nat} (h : n < 100) (fields : List Field) (rest : List Char) :
    read? r (field :: fields) (padded 2 n ++ rest) = read? (set n) fields rest :=
  read?_cons (by rw [hfield, takeShort?_padded h, Option.map_some])

theorem read?_dateText (d : Date) (fields : List Field) (rest : List Char) :
    read? {} (dateFields ++ fields) (dateText d ++ rest) =
      read? { year := d.year, month := d.month, day := d.day } fields rest := by
  have hmonth : d.month < 100 := Nat.lt_of_le_of_lt d.month_mem.2 (by decide)
  have hday : d.day < 100 := by
    have hdays : daysInMonth d.year d.month < 100 := by
      rw [daysInMonth]
      split <;> split <;> decide
    exact Nat.lt_of_le_of_lt d.day_mem.2 hdays
  have hfields : dateFields ++ fields =
      .year :: .literal '-' :: .month :: .literal '-' :: .day :: fields := rfl
  rw [hfields, dateText, List.append_assoc, List.append_assoc, List.cons_append, List.cons_append,
    read?_year, read?_literal, read?_short ({ year := d.year, month := · }) (fun _ => rfl) hmonth,
    read?_literal,
    read?_short ({ year := d.year, month := d.month, day := · }) (fun _ => rfl) hday]

theorem read?_timeText (r : Reading) (t : Time) :
    read? r timeFields (timeText t) =
      some { r with hour := t.hour, minute := t.minute, second := t.second } := by
  have hhour : t.hour < 100 := Nat.lt_trans t.hour_lt (by decide)
  have hminute : t.minute < 100 := Nat.lt_trans t.minute_lt (by decide)
  have hsecond : t.second < 100 := Nat.lt_of_le_of_lt t.second_le (by decide)
  rw [timeFields, timeText, List.append_assoc, List.cons_append,
    read?_short ({ r with hour := · }) (fun _ => rfl) hhour, read?_literal,
    read?_short ({ r with hour := t.hour, minute := · }) (fun _ => rfl) hminute, read?_literal,
    ← List.append_nil (padded 2 t.second),
    read?_short ({ r with hour := t.hour, minute := t.minute, second := · }) (fun _ => rfl) hsecond,
    read?]

theorem isBlank_head?_timeText (t : Time) : ∀ c ∈ (timeText t).head?, isBlank c = false := by
  intro c hc
  rw [timeText, List.append_assoc] at hc
  have hdigit := isDigit_of_head? (padded_ne_nil 2 t.hour)
    (fun _ => isDigit_of_mem_padded) _ c hc
  exact isBlank_of_isDigit hdigit

/-- At least one character is taken for a number. -/
theorem suffix_of_takeNumber? {width n : Nat} {cs rest : List Char}
    (h : takeNumber? width cs = some (n, rest)) : rest <:+ cs.tail := by
  rw [takeNumber?] at h
  split at h
  · cases h
  · rename_i hne
    cases h
    rw [Bool.not_eq_true, List.isEmpty_eq_false_iff] at hne
    obtain ⟨d, ds, hcons⟩ := List.exists_cons_of_ne_nil hne
    rw [hcons, List.length_cons]
    cases cs with
    | nil => exact List.nil_suffix
    | cons c cs => exact List.drop_suffix ds.length cs

theorem suffix_of_takeYear? {cs rest : List Char} {year : Int}
    (h : takeYear? cs = some (year, rest)) : rest <:+ cs.tail := by
  rw [takeYear?.eq_def] at h
  split at h
  all_goals
    obtain ⟨⟨n, rest⟩, hnumber, ⟨⟩⟩ := Option.map_eq_some_iff.mp h
  · exact (suffix_of_takeNumber? hnumber).trans (List.tail_suffix _)
  · exact (suffix_of_takeNumber? hnumber).trans (List.tail_suffix _)
  · exact suffix_of_takeNumber? hnumber

/-- A date has a minus sign behind its year. -/
theorem read?_eq_none {cs : List Char} (h : '-' ∉ cs.tail) (r : Reading) (fields : List Field) :
    read? r (.year :: .literal '-' :: fields) cs = none := by
  cases hyear : takeYear? (cs.dropWhile isBlank) with
  | none => simp [read?, Field.read?, hyear]
  | some read =>
    obtain ⟨year, rest⟩ := read
    rw [read?_cons (by rw [Field.read?, hyear, Option.map_some]), read?]
    have hrest := (suffix_of_takeYear? hyear).sublist.trans (List.dropWhile_sublist isBlank).tail
    cases rest with
    | nil => rfl
    | cons c rest =>
      have hc : c ≠ '-' := by
        rintro rfl
        exact h (hrest.mem List.mem_cons_self)
      rw [Field.read?, if_neg hc]
      rfl

/-- The text of a date with or without a sign in front starts with digits and a minus sign. -/
theorem exists_takeSign_yearText (year : Int) :
    ∃ negative ds, ds ≠ [] ∧ (∀ d ∈ ds, d.isDigit = true) ∧
      ∀ rest, takeSign (yearText year ++ rest) = (negative, ds ++ rest) := by
  have hne := padded_ne_nil 4 year.natAbs
  have hds : ∀ d ∈ padded 4 year.natAbs, d.isDigit = true := fun _ => isDigit_of_mem_padded
  rcases yearText_cases year with ⟨-, -, htext⟩ | ⟨-, htext⟩ | ⟨-, htext⟩
  · exact ⟨false, _, hne, hds, fun rest => by rw [htext, takeSign_digits hne hds rest]⟩
  · exact ⟨true, _, hne, hds, fun rest => by rw [htext]; rfl⟩
  · exact ⟨false, _, hne, hds, fun rest => by rw [htext]; rfl⟩

end Calendar

/-- The time at the start of its second. -/
def Time.wholeSecond (t : Time) : Time :=
  { t with nanosecond := 0, nanosecond_lt := midnight.nanosecond_lt }

/-- The date with the time at the start of its second. -/
def DateTime.wholeSecond (t : DateTime) : DateTime := ⟨t.date, t.time.wholeSecond⟩

theorem Date.of?_self (d : Date) : Date.of? d.year d.month d.day = some d := by
  rw [Date.of?, dif_pos d.year_mem, dif_pos d.month_mem, dif_pos d.day_mem]

theorem Time.of?_wholeSecond (t : Time) :
    Time.of? t.hour t.minute t.second 0 = some t.wholeSecond := by
  rw [Time.of?, dif_pos ⟨t.hour_lt, t.minute_lt, t.second_le, by decide⟩]
  rfl

namespace DateTime

open Calendar

theorem toList_plainText (t : DateTime) :
    t.plainText.toList = dateText t.date ++ ' ' :: timeText t.time :=
  String.toList_ofList

/-- The plain text is read by the first of the formats. -/
theorem read?_plainText (t : DateTime) :
    read? {} (dateFields ++ .blanks :: timeFields) t.plainText.toList =
      some { year := t.date.year, month := t.date.month, day := t.date.day,
             hour := t.time.hour, minute := t.time.minute, second := t.time.second } := by
  have hblanks : (' ' :: timeText t.time).dropWhile isBlank = timeText t.time := by
    rw [List.dropWhile_cons_of_pos (by decide), dropWhile_eq_self (isBlank_head?_timeText t.time)]
  rw [toList_plainText, read?_dateText, read?_cons (by rw [Field.read?, hblanks]), read?_timeText]

theorem trim_plainText (t : DateTime) : trim t.plainText.toList = t.plainText.toList := by
  rw [toList_plainText]
  refine trim_eq_self ?_ ?_
  · rw [dateText, List.append_assoc, List.append_assoc]
    exact isBlank_head?_yearText _ _
  · have hlast : dateText t.date ++ ' ' :: timeText t.time =
        dateText t.date ++ ' ' :: padded 2 t.time.hour ++ ':' :: padded 2 t.time.minute ++ [':'] ++
          padded 2 t.time.second := by
      simp [timeText]
    rw [hlast]
    intro c hc
    have hdigit := isDigit_of_getLast? (padded_ne_nil 2 _) (fun _ => isDigit_of_mem_padded) c hc
    exact isBlank_of_isDigit hdigit

/-- The plain text is read as the date with the time, cut to the second. -/
theorem ofText?_plainText (t : DateTime) : ofText? t.plainText = some t.wholeSecond := by
  have hfirst : formats.findSome? (fun format =>
      (read? {} format t.plainText.toList).bind Reading.dateTime?) = some t.wholeSecond := by
    rw [formats, List.findSome?_cons, read?_plainText, Option.bind_some, Reading.dateTime?,
      Reading.date?, Date.of?_self, Time.of?_wholeSecond]
    rfl
  rw [ofText?, trim_plainText]
  simp only [hfirst]

/-- A text without a minus sign behind its first character is no date. -/
theorem ofText?_eq_none {s : String} (h : '-' ∉ (trim s.toList).tail) : ofText? s = none := by
  have hformats : ∀ format ∈ formats,
      (read? {} format (trim s.toList)).bind Reading.dateTime? = none := by
    intro format hformat
    simp only [formats, List.mem_cons, List.not_mem_nil, or_false] at hformat
    rcases hformat with rfl | rfl | rfl | rfl
    all_goals exact congrArg (Option.bind · Reading.dateTime?) (read?_eq_none h {} _)
  have hdate : read? {} dateFields (trim s.toList) = none := read?_eq_none h {} _
  rw [ofText?]
  simp only [List.findSome?_eq_none_iff.mpr hformats, hdate, Option.bind_none, Option.map_none]

/-- The plain text behind a sign starts with digits and a minus sign. -/
theorem exists_takeSign_plainText (t : DateTime) :
    ∃ negative ds rest, ds ≠ [] ∧ (∀ d ∈ ds, d.isDigit = true) ∧
      takeSign t.plainText.toList = (negative, ds ++ '-' :: rest) := by
  obtain ⟨negative, ds, hne, hds, hsign⟩ := exists_takeSign_yearText t.date.year
  refine ⟨negative, ds, padded 2 t.date.month ++ '-' :: padded 2 t.date.day ++
    ' ' :: timeText t.time, hne, hds, ?_⟩
  rw [toList_plainText, dateText, List.append_assoc, List.append_assoc, hsign]
  simp

end DateTime

end FilterLang
