/-!
# Calendar days

Days of the proleptic Gregorian calendar between the first day of the year -262143 and the last
day of the year 262142. A day is its year, month and day of the month; arithmetic goes through the
number of days since the first day of the year zero.
-/

namespace MetricLayer.Calendar

/-- A calendar day. -/
structure Date where
  /-- The year; the year before 1 is 0. -/
  year : Int
  /-- The month, from 1 to 12. -/
  month : Nat
  /-- The day of the month, from 1. -/
  day : Nat
deriving DecidableEq, Repr

/-- The first year of the calendar. -/
def firstYear : Int := -262143

/-- The last year of the calendar. -/
def lastYear : Int := 262142

/-- Whether a year has 366 days. -/
def isLeap (year : Int) : Bool :=
  year % 4 = 0 && (year % 100 ≠ 0 || year % 400 = 0)

/-- The number of days of a month. -/
def daysInMonth (year : Int) (month : Nat) : Nat :=
  if month = 2 then if isLeap year then 29 else 28
  else if month = 4 || month = 6 || month = 9 || month = 11 then 30
  else 31

/-- The number of days of a year. -/
def daysInYear (year : Int) : Nat :=
  if isLeap year then 366 else 365

/-- The days from the first day of the year zero to the first day of a year. -/
def daysBeforeYear (year : Int) : Int :=
  365 * year + (year + 3) / 4 - (year + 99) / 100 + (year + 399) / 400

/-- The days of a year before a month. -/
def daysBeforeMonth (year : Int) : (month : Nat) → Nat
  | 0 => 0
  | 1 => 0
  | month + 2 => daysBeforeMonth year (month + 1) + daysInMonth year (month + 1)

namespace Date

/-- Whether the parts name a day of the calendar. -/
def Valid (d : Date) : Prop :=
  firstYear ≤ d.year ∧ d.year ≤ lastYear ∧ 1 ≤ d.month ∧ d.month ≤ 12 ∧ 1 ≤ d.day ∧
    d.day ≤ daysInMonth d.year d.month

instance (d : Date) : Decidable d.Valid := by
  unfold Valid
  infer_instance

/-- The day with the given parts, where the calendar has one. -/
def ofParts? (year : Int) (month day : Nat) : Option Date :=
  let d : Date := ⟨year, month, day⟩
  if d.Valid then some d else none

/-- The days from the first day of the year zero to a day. -/
def dayNumber (d : Date) : Int :=
  daysBeforeYear d.year + daysBeforeMonth d.year d.month + d.day - 1

/-- The year that the given day number lies in. Every 400 years have 146097 days; within them a
year is found by dividing by 366, which falls short by at most one year. -/
def yearOf (number : Int) : Int :=
  let cycle := number / 146097
  let rest := number % 146097
  let guess := rest / 366
  cycle * 400 + (if daysBeforeYear (guess + 1) ≤ rest then guess + 1 else guess)

/-- The month and the day of the month of the day that `rest` days follow the first day of
`month`, looking at most `months` months ahead. -/
def monthAndDay (year : Int) (month rest : Nat) : (months : Nat) → Nat × Nat
  | 0 => (month, rest + 1)
  | months + 1 =>
    if rest < daysInMonth year month then (month, rest + 1)
    else monthAndDay year (month + 1) (rest - daysInMonth year month) months

/-- The day with the given number, where the calendar has one. -/
def ofDayNumber? (number : Int) : Option Date :=
  let year := yearOf number
  let (month, day) := monthAndDay year 1 (number - daysBeforeYear year).toNat 11
  ofParts? year month day

/-- The day `n` days later, where the calendar has one. -/
def addDays? (d : Date) (n : Int) : Option Date :=
  ofDayNumber? (d.dayNumber + n)

/-- The day before. -/
def pred? (d : Date) : Option Date := d.addDays? (-1)

/-- The day after. -/
def succ? (d : Date) : Option Date := d.addDays? 1

/-- The same day of the month `n` months later, or the last day of that month where it is
shorter. -/
def addMonths? (d : Date) (n : Int) : Option Date :=
  let total := d.year * 12 + (d.month - 1 : Nat) + n
  let year := total / 12
  let month := (total % 12).toNat + 1
  ofParts? year month (min d.day (daysInMonth year month))

/-- The number of days since the last Monday. The first day of the year zero is a Saturday. -/
def daysSinceMonday (d : Date) : Nat :=
  ((d.dayNumber + 5) % 7).toNat

end Date

end MetricLayer.Calendar
