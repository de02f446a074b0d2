/-! Dates and times of the proleptic Gregorian calendar, without a zone. Second 60 is the leap
second of its minute and comes after second 59. -/

namespace FilterLang

def isLeapYear (year : Int) : Bool := year % 4 = 0 && (year % 100 ≠ 0 || year % 400 = 0)

def daysInMonth (year : Int) (month : Nat) : Nat :=
  if month = 2 then if isLeapYear year then 29 else 28
  else if month = 4 || month = 6 || month = 9 || month = 11 then 30
  else 31

/-- A day of the calendar; the years are those whose days are counted in 32 bits. -/
structure Date where
  year : Int
  month : Nat
  day : Nat
  year_mem : -262143 ≤ year ∧ year ≤ 262142
  month_mem : 1 ≤ month ∧ month ≤ 12
  day_mem : 1 ≤ day ∧ day ≤ daysInMonth year month
  deriving DecidableEq

/-- A time of day. -/
structure Time where
  hour : Nat
  minute : Nat
  second : Nat
  nanosecond : Nat
  hour_lt : hour < 24
  minute_lt : minute < 60
  second_le : second ≤ 60
  nanosecond_lt : nanosecond < 1000000000
  deriving DecidableEq

/-- A date with a time of day. -/
structure DateTime where
  date : Date
  time : Time
  deriving DecidableEq

/-- The day with the given numbers, if it exists. -/
def Date.of? (year : Int) (month day : Nat) : Option Date :=
  if hy : -262143 ≤ year ∧ year ≤ 262142 then
    if hm : 1 ≤ month ∧ month ≤ 12 then
      if hd : 1 ≤ day ∧ day ≤ daysInMonth year month then some ⟨year, month, day, hy, hm, hd⟩
      else none
    else none
  else none

/-- The time with the given numbers, if it exists. -/
def Time.of? (hour minute second nanosecond : Nat) : Option Time :=
  if h : hour < 24 ∧ minute < 60 ∧ second ≤ 60 ∧ nanosecond < 1000000000 then
    some ⟨hour, minute, second, nanosecond, h.1, h.2.1, h.2.2.1, h.2.2.2⟩
  else none

def Time.midnight : Time :=
  ⟨0, 0, 0, 0, by decide, by decide, by decide, by decide⟩

/-- The start of a day. -/
def Date.start (date : Date) : DateTime := ⟨date, .midnight⟩

def Date.compare (a b : Date) : Ordering :=
  ((Ord.compare a.year b.year).then (Ord.compare a.month b.month)).then (Ord.compare a.day b.day)

def Time.compare (a b : Time) : Ordering :=
  (((Ord.compare a.hour b.hour).then (Ord.compare a.minute b.minute)).then
    (Ord.compare a.second b.second)).then (Ord.compare a.nanosecond b.nanosecond)

/-- Earlier before later. -/
def DateTime.compare (a b : DateTime) : Ordering :=
  (a.date.compare b.date).then (a.time.compare b.time)

end FilterLang
