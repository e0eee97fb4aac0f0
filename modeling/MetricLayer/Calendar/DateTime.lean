import MetricLayer.Calendar.Date

/-!
# Points in time

A calendar day with a time of day. The second 60 is a leap second. The text of a point in time has
milliseconds; finer parts are cut off.
-/

namespace MetricLayer.Calendar

/-- A time of day. -/
structure Time where
  /-- The hour, from 0 to 23. -/
  hour : Nat
  /-- The minute, from 0 to 59. -/
  minute : Nat
  /-- The second, from 0 to 60. -/
  second : Nat
  /-- The nanosecond within the second. -/
  nanosecond : Nat
deriving DecidableEq, Repr

namespace Time

/-- The start of a day. -/
def midnight : Time := ⟨0, 0, 0, 0⟩

/-- The last millisecond of a day. -/
def lastMillisecond : Time := ⟨23, 59, 59, 999000000⟩

/-- The time with the given parts, where there is one. -/
def ofParts? (hour minute second nanosecond : Nat) : Option Time :=
  if hour ≤ 23 ∧ minute ≤ 59 ∧ second ≤ 60 then some ⟨hour, minute, second, nanosecond⟩ else none

end Time

/-- A point in time without a time zone. -/
structure DateTime where
  /-- The calendar day. -/
  date : Date
  /-- The time of day. -/
  time : Time
deriving DecidableEq, Repr

/-- Decimal digits with zeros in front up to a width. -/
def padded (width n : Nat) : String :=
  let digits := Nat.toDigits 10 n
  String.ofList (List.replicate (width - digits.length) '0' ++ digits)

/-- A year: four digits from 0 to 9999, otherwise a sign and at least four digits. -/
def yearText (year : Int) : String :=
  if 0 ≤ year && year ≤ 9999 then padded 4 year.toNat
  else (if year < 0 then "-" else "+") ++ padded 4 year.natAbs

namespace DateTime

/-- The point in time `n` minutes later, where the calendar has one. Seconds stay as they are, so
a leap second remains one. -/
def addMinutes? (t : DateTime) (n : Int) : Option DateTime := do
  let total : Int := (t.time.hour * 60 + t.time.minute : Nat) + n
  let date ← t.date.addDays? (total / 1440)
  let minute := (total % 1440).toNat
  return ⟨date, { t.time with hour := minute / 60, minute := minute % 60 }⟩

/-- The text of a point in time: `2024-05-15T13:30:00.000`. -/
def text (t : DateTime) : String :=
  yearText t.date.year ++ "-" ++ padded 2 t.date.month ++ "-" ++ padded 2 t.date.day ++ "T" ++
    padded 2 t.time.hour ++ ":" ++ padded 2 t.time.minute ++ ":" ++ padded 2 t.time.second ++ "." ++
    padded 3 (t.time.nanosecond / 1000000)

end DateTime

end MetricLayer.Calendar
