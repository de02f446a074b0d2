import FilterLang.Calendar.Basic
import FilterLang.Text.Basic
import FilterLang.Text.Digits

/-! Dates and times as text. Two written forms share the digits: the plain one,
`2001-02-03 04:05:06`, leaves the fraction of a second out; the exact one,
`2001-02-03T04:05:06.789`, keeps it.

Reading is lenient. A number may follow blanks and may have fewer digits than are written, a blank
in a format stands for any run of blanks, and all of the text has to be used. -/

namespace FilterLang

namespace Calendar

open Text

/-- Four digits for the years 0 to 9999, a sign and at least four digits for the others. -/
def yearText (year : Int) : List Char :=
  if 0 ≤ year ∧ year ≤ 9999 then padded 4 year.toNat
  else (if year < 0 then '-' else '+') :: padded 4 year.natAbs

/-- No fraction, or one of three, six or nine digits: the fewest that are exact. -/
def fractionText (nanosecond : Nat) : List Char :=
  if nanosecond = 0 then []
  else if nanosecond % 1000000 = 0 then '.' :: padded 3 (nanosecond / 1000000)
  else if nanosecond % 1000 = 0 then '.' :: padded 6 (nanosecond / 1000)
  else '.' :: padded 9 nanosecond

def dateText (d : Date) : List Char :=
  yearText d.year ++ '-' :: padded 2 d.month ++ '-' :: padded 2 d.day

def timeText (t : Time) : List Char :=
  padded 2 t.hour ++ ':' :: padded 2 t.minute ++ ':' :: padded 2 t.second

/-- One part of a date format. -/
inductive Field where
  | year
  | month
  | day
  | hour
  | minute
  | second
  /-- Nothing, or a point and at least one digit. -/
  | fraction
  /-- Any run of blanks. -/
  | blanks
  | literal (c : Char)
  deriving DecidableEq

/-- The numbers read so far; what a format does not mention is zero. -/
structure Reading where
  year : Int := 0
  month : Nat := 0
  day : Nat := 0
  hour : Nat := 0
  minute : Nat := 0
  second : Nat := 0
  nanosecond : Nat := 0

/-- At least one and at most `width` digits. -/
def takeNumber? (width : Nat) (cs : List Char) : Option (Nat × List Char) :=
  let digits := (cs.take width).takeWhile Char.isDigit
  if digits.isEmpty then none else some (digitsValue digits, cs.drop digits.length)

/-- A year: up to four digits, or any number of digits after a sign. -/
def takeYear? : List Char → Option (Int × List Char)
  | '-' :: rest => (takeNumber? rest.length rest).map fun (n, rest) => (-(n : Int), rest)
  | '+' :: rest => (takeNumber? rest.length rest).map fun (n, rest) => ((n : Int), rest)
  | rest => (takeNumber? 4 rest).map fun (n, rest) => ((n : Int), rest)

/-- The nanoseconds that the digits after a point stand for; digits past the ninth are dropped. -/
def nanoseconds (digits : List Char) : Nat :=
  digitsValue ((digits ++ List.replicate 9 '0').take 9)

/-- One or two digits, after any blanks. -/
def takeShort? (cs : List Char) : Option (Nat × List Char) :=
  takeNumber? 2 (cs.dropWhile isBlank)

/-- The fraction of a second that may follow the seconds. -/
def takeFraction? : List Char → Option (Nat × List Char)
  | '.' :: rest =>
    let digits := rest.takeWhile Char.isDigit
    if digits.isEmpty then none else some (nanoseconds digits, rest.dropWhile Char.isDigit)
  | rest => some (0, rest)

/-- Reads one part of a format from the front of a text. -/
def Field.read? (r : Reading) (cs : List Char) : Field → Option (Reading × List Char)
  | .year => (takeYear? (cs.dropWhile isBlank)).map fun (n, rest) => ({ r with year := n }, rest)
  | .month => (takeShort? cs).map fun (n, rest) => ({ r with month := n }, rest)
  | .day => (takeShort? cs).map fun (n, rest) => ({ r with day := n }, rest)
  | .hour => (takeShort? cs).map fun (n, rest) => ({ r with hour := n }, rest)
  | .minute => (takeShort? cs).map fun (n, rest) => ({ r with minute := n }, rest)
  | .second => (takeShort? cs).map fun (n, rest) => ({ r with second := n }, rest)
  | .fraction => (takeFraction? cs).map fun (n, rest) => ({ r with nanosecond := n }, rest)
  | .blanks => some (r, cs.dropWhile isBlank)
  | .literal c =>
    match cs with
    | [] => none
    | d :: rest => if d = c then some (r, rest) else none

/-- Reads a whole text by a format. -/
def read? : Reading → List Field → List Char → Option Reading
  | r, [], [] => some r
  | _, [], _ :: _ => none
  | r, field :: fields, cs => do
    let (r, rest) ← field.read? r cs
    read? r fields rest

def Reading.date? (r : Reading) : Option Date := Date.of? r.year r.month r.day

def Reading.dateTime? (r : Reading) : Option DateTime := do
  let date ← r.date?
  let time ← Time.of? r.hour r.minute r.second r.nanosecond
  pure ⟨date, time⟩

def dateFields : List Field := [.year, .literal '-', .month, .literal '-', .day]

def timeFields : List Field := [.hour, .literal ':', .minute, .literal ':', .second]

end Calendar

open Calendar

namespace DateTime

/-- The plain form, to the second. -/
def plainText (t : DateTime) : String :=
  String.ofList (dateText t.date ++ ' ' :: timeText t.time)

/-- The exact form. -/
def exactText (t : DateTime) : String :=
  String.ofList (dateText t.date ++ 'T' :: (timeText t.time ++ fractionText t.time.nanosecond))

/-- The formats of a date with a time, in the order in which they are tried. -/
def formats : List (List Field) := [
  dateFields ++ .blanks :: timeFields,
  dateFields ++ .blanks :: timeFields ++ [.fraction],
  dateFields ++ .literal 'T' :: timeFields,
  dateFields ++ .literal 'T' :: timeFields ++ [.fraction]]

/-- The first format that fits gives the value; a date alone is its midnight. -/
def ofText? (text : String) : Option DateTime :=
  let cs := Text.trim text.toList
  match formats.findSome? fun format => (read? {} format cs).bind Reading.dateTime? with
  | some t => some t
  | none => ((read? {} dateFields cs).bind Reading.date?).map Date.start

/-- The exact form, in which blanks may also stand before each separator and at the end. -/
def exactFields : List Field :=
  [.year, .blanks, .literal '-', .month, .blanks, .literal '-', .day, .blanks, .literal 'T',
    .hour, .blanks, .literal ':', .minute, .blanks, .literal ':', .second, .fraction, .blanks]

/-- Reads the exact form. -/
def ofExactText? (text : String) : Option DateTime :=
  (read? {} exactFields text.toList).bind Reading.dateTime?

end DateTime

/-- Reads a date alone, in which blanks may also stand before each separator and at the end. -/
def Date.ofText? (text : String) : Option Date :=
  (read? {} [.year, .blanks, .literal '-', .month, .blanks, .literal '-', .day, .blanks]
    text.toList).bind Reading.date?

end FilterLang
