import MetricLayer.Calendar.DateRange
import MetricLayer.Text.Blank

/-!
# Dates in fixed formats

Texts such as `2024-01-31`, `2024-01-31T10:00:00`, `2024-01-31 10:00`, `2024-01-31T10:00:00+02:00`
and `2024-01`. The formats without an offset are lenient: white space may stand before each number,
a number may have fewer digits than usual, and a year with a sign may have any number of digits.
The format with an offset is strict.

Every function here reads from the front of a text and returns what follows.
-/

namespace MetricLayer.Calendar

/-- The value of decimal digits. -/
def digitsValue (cs : List Char) : Nat :=
  cs.foldl (fun n c => n * 10 + (c.toNat - '0'.toNat)) 0

/-- Between `least` and `most` decimal digits, as many as there are. -/
def digits? (least most : Nat) (cs : List Char) : Option (List Char × List Char) :=
  let found := (cs.take most).takeWhile Char.isDigit
  if found.length < least then none else some (found, cs.drop found.length)

/-- The given character. -/
def char? (c : Char) : List Char → Option (List Char)
  | [] => none
  | d :: rest => if d = c then some rest else none

/-- Any number of decimal digits, at least one. -/
def digitRun? (cs : List Char) : Option (List Char × List Char) :=
  digits? 1 cs.length cs

/-- A number of one or two digits after optional white space. -/
def shortNumber? (cs : List Char) : Option (Nat × List Char) :=
  (digits? 1 2 (Text.trimStart cs)).map fun (ds, rest) => (digitsValue ds, rest)

/-- A year after optional white space: a sign and any number of digits, or up to four digits. -/
def year? (cs : List Char) : Option (Int × List Char) :=
  match Text.trimStart cs with
  | '-' :: rest => (digitRun? rest).map fun (ds, rest) => (-(digitsValue ds : Int), rest)
  | '+' :: rest => (digitRun? rest).map fun (ds, rest) => ((digitsValue ds : Int), rest)
  | cs => (digits? 1 4 cs).map fun (ds, rest) => ((digitsValue ds : Int), rest)

/-- A day: year, month and day of the month with hyphens between them. -/
def date? (cs : List Char) : Option (Date × List Char) := do
  let (year, cs) ← year? cs
  let (month, cs) ← shortNumber? (← char? '-' cs)
  let (day, cs) ← shortNumber? (← char? '-' cs)
  return (← Date.ofParts? year month day, cs)

/-- An optional fraction of a second in nanoseconds; digits after the ninth are dropped. -/
def fraction? (cs : List Char) : Option (Nat × List Char) :=
  match cs with
  | '.' :: rest => do
    let (ds, after) ← digitRun? rest
    return (digitsValue ((ds ++ List.replicate 9 '0').take 9), after)
  | _ => some (0, cs)

/-- A time of day: hour and minute, optionally followed by the second and its fraction. -/
def time? (cs : List Char) : Option (Time × List Char) := do
  let (hour, cs) ← shortNumber? cs
  let (minute, cs) ← shortNumber? (← char? ':' cs)
  match cs with
  | ':' :: rest =>
    let (second, cs) ← shortNumber? rest
    let (nanosecond, cs) ← fraction? cs
    return (← Time.ofParts? hour minute second nanosecond, cs)
  | _ => return (← Time.ofParts? hour minute 0 0, cs)

/-- A value that the whole text stands for. -/
def whole? {α : Type} (result : Option (α × List Char)) : Option α := do
  let (a, rest) ← result
  if rest.isEmpty then some a else none

/-- A point in time: day and time of day with `T` or optional white space between them. -/
def dateTime? (cs : List Char) : Option (DateTime × List Char) := do
  let (date, cs) ← date? cs
  let (time, cs) ← time? (match cs with | 'T' :: rest => rest | _ => Text.trimStart cs)
  return (⟨date, time⟩, cs)

/-- Exactly two digits. -/
def twoDigits? (cs : List Char) : Option (Nat × List Char) :=
  (digits? 2 2 cs).map fun (ds, rest) => (digitsValue ds, rest)

/-- An offset from universal time in minutes: `Z`, or a sign, hours and minutes. -/
def offset? (cs : List Char) : Option (Int × List Char) :=
  match cs with
  | [] => none
  | c :: rest =>
    if c = 'Z' || c = 'z' then some (0, rest)
    else if c = '+' || c = '-' || c.toNat = 0x2212 then do
      let (hours, rest) ← twoDigits? rest
      let (minutes, rest) ← twoDigits? (← char? ':' rest)
      if hours ≤ 23 ∧ minutes ≤ 59 then
        let total : Int := (hours * 60 + minutes : Nat)
        return (if c = '+' then total else -total, rest)
      else none
    else none

/-- A point in time with an offset, as the point in universal time. -/
def zonedDateTime? (cs : List Char) : Option (DateTime × List Char) := do
  let (yearDigits, cs) ← digits? 4 4 cs
  let (month, cs) ← twoDigits? (← char? '-' cs)
  let (day, cs) ← twoDigits? (← char? '-' cs)
  let cs ← match cs with
    | c :: rest => if c = 'T' || c = 't' || c = ' ' then some rest else none
    | [] => none
  let (hour, cs) ← twoDigits? cs
  let (minute, cs) ← twoDigits? (← char? ':' cs)
  let (second, cs) ← twoDigits? (← char? ':' cs)
  let (nanosecond, cs) ← fraction? cs
  let (offset, cs) ← offset? cs
  let date ← Date.ofParts? (digitsValue yearDigits) month day
  let time ← Time.ofParts? hour minute second nanosecond
  return (← DateTime.addMinutes? ⟨date, time⟩ (-offset), cs)

/-- The range that a text in one of the fixed formats stands for. A text that is a day keeps this
meaning even where the range of the day does not exist. -/
def fixedFormat? (cs : List Char) : Option DateRange :=
  match whole? (date? cs) with
  | some day => DateRange.day? day
  | none =>
    match whole? (dateTime? cs), whole? (zonedDateTime? cs) with
    | some t, _ => some (.instant t)
    | none, some t => some (.instant t)
    | none, none => do
      let first ← whole? (date? (cs ++ "-01".toList))
      DateRange.months? first 1

end MetricLayer.Calendar
