import MetricLayer.Calendar.Reader
import MetricLayer.Schema.Error

/-!
# Date phrases

Phrases such as `today`, `3 days ago`, `last week`, `last 7 days` and `from X to Y`, read against a
reference time. `parseDate` first tries the fixed formats and then, in lower case, the phrases.
-/

namespace MetricLayer.Calendar

/-- A unit of the calendar. -/
inductive Period
  | day
  | week
  | month
  | quarter
  | year
deriving DecidableEq, Repr

namespace Period

/-- The name of a unit. -/
def name : Period → String
  | .day => "day"
  | .week => "week"
  | .month => "month"
  | .quarter => "quarter"
  | .year => "year"

/-- The units that can be counted. -/
def countable : List Period := [.day, .week, .month, .year]

/-- All units. -/
def all : List Period := [.day, .week, .month, .quarter, .year]

end Period

/-- The day `n` units later. -/
def shift? (day : Date) (unit : Period) (n : Int) : Option Date :=
  match unit with
  | .day => day.addDays? n
  | .week => day.addDays? (7 * n)
  | .month => day.addMonths? n
  | .quarter => day.addMonths? (3 * n)
  | .year => day.addMonths? (12 * n)

/-- The calendar period that contains a day, moved by `offset` periods. Weeks start on Monday. -/
def period? (day : Date) (unit : Period) (offset : Int) : Option DateRange :=
  match unit with
  | .day => do DateRange.day? (← shift? day .day offset)
  | .week => do
    let monday ← day.addDays? (-(day.daysSinceMonday : Int))
    let first ← shift? monday .week offset
    DateRange.days? first (← first.addDays? 6)
  | .month => do
    let first ← Date.ofParts? day.year day.month 1
    DateRange.months? (← shift? first .month offset) 1
  | .quarter => do
    let first ← Date.ofParts? day.year ((day.month - 1) / 3 * 3 + 1) 1
    DateRange.months? (← shift? first .quarter offset) 3
  | .year => do
    let first ← Date.ofParts? day.year 1 1
    DateRange.months? (← shift? first .year offset) 12

/-- The given word. -/
def word? (word : String) (cs : List Char) : Option (List Char) :=
  if word.toList.isPrefixOf cs then some (cs.drop word.length) else none

/-- At least one blank character, as many as there are. -/
def blanks? : List Char → Option (List Char)
  | c :: rest => if Text.isBlank c then some (Text.trimStart rest) else none
  | [] => none

/-- The name of one of the given units. -/
def unit? (units : List Period) (cs : List Char) : Option (Period × List Char) :=
  units.findSome? fun u => (word? u.name cs).map fun rest => (u, rest)

/-- The name of a unit that can be counted, in the singular or the plural. -/
def countedUnit? (cs : List Char) : Option (Period × List Char) := do
  let (unit, cs) ← unit? Period.countable cs
  return (unit, (char? 's' cs).getD cs)

/-- A count below `2^32`. -/
def count? (cs : List Char) : Option (Nat × List Char) := do
  let (ds, cs) ← digitRun? cs
  if digitsValue ds < UInt32.size then some (digitsValue ds, cs) else none

/-- `3 days ago` and `3 days from now`: the unit and how many of them to move by. -/
def distance? (cs : List Char) : Option (Period × Int) := do
  let (n, cs) ← count? cs
  let (unit, cs) ← countedUnit? (← blanks? cs)
  let cs ← blanks? cs
  if cs = "ago".toList then some (unit, -(n : Int))
  else if cs = "from now".toList then some (unit, n)
  else none

/-- `last week`, `this week` and `next week`: the unit and how many of them to move by. -/
def namedPeriod? (cs : List Char) : Option (Period × Int) := do
  let (offset, cs) ← [("last", -1), ("this", 0), ("next", 1)].findSome? fun (w, offset) =>
    (word? w cs).map fun rest => ((offset : Int), rest)
  let (unit, cs) ← unit? Period.all (← blanks? cs)
  if cs.isEmpty then some (unit, offset) else none

/-- `last 7 days`: the unit and how many of them the window has. -/
def window? (cs : List Char) : Option (Period × Nat) := do
  let (n, cs) ← count? (← blanks? (← word? "last" cs))
  let (unit, cs) ← countedUnit? (← blanks? cs)
  if cs.isEmpty then some (unit, n) else none

/-- What follows the word `to` between blanks, where that is a text without a line break. -/
def afterTo? (cs : List Char) : Option (List Char) := do
  let rest ← blanks? (← word? "to" (← blanks? cs))
  if rest.isEmpty || rest.any (· = '\n') then none else some rest

/-- Divide a text at the first word `to` after its first character. No part has a line break. -/
def splitAtTo : List Char → Option (List Char × List Char)
  | [] => none
  | c :: rest =>
    if c = '\n' then none
    else
      match afterTo? rest with
      | some after => some ([c], after)
      | none => (splitAtTo rest).map fun (before, after) => (c :: before, after)

/-- `from X to Y`: the two parts. -/
def fromTo? (cs : List Char) : Option (List Char × List Char) := do
  splitAtTo (← blanks? (← word? "from" cs))

/-- The range of a phrase in lower case that is not of the form `from X to Y`. -/
def simplePhrase? (now : DateTime) (cs : List Char) : Option DateRange :=
  let today := now.date
  if cs = "now".toList then some (.instant now)
  else if cs = "today".toList then DateRange.day? today
  else if cs = "yesterday".toList then do DateRange.day? (← today.pred?)
  else if cs = "tomorrow".toList then do DateRange.day? (← today.succ?)
  else
    match distance? cs, namedPeriod? cs, window? cs with
    | some (unit, n), _, _ => do DateRange.day? (← shift? today unit n)
    | none, some (unit, offset), _ => period? today unit offset
    | none, none, some (unit, n) =>
      if n = 0 then none
      else do DateRange.days? (← (← shift? today unit (-(n : Int))).succ?) today
    | none, none, none => none

/-- The range of a phrase in lower case. The parts of `from X to Y` may be fixed formats or again
phrases; the first argument bounds how deeply they nest. -/
def phrase? (now : DateTime) : (depth : Nat) → List Char → Option DateRange
  | 0, cs => simplePhrase? now cs
  | depth + 1, cs =>
    match fromTo? cs with
    | some (x, y) => do
      let part (cs : List Char) : Option DateRange :=
        (fixedFormat? cs).orElse fun _ => phrase? now depth cs
      return .span (← part x) (← part y)
    | none => simplePhrase? now cs

/-- The lower-case form of a character, for the characters whose lower-case form is an ASCII
letter: the capital letters and the Kelvin sign. -/
def lowerLetter (c : Char) : Char :=
  if 'A' ≤ c ∧ c ≤ 'Z' then Char.ofNat (c.toNat + 32)
  else if c.toNat = 0x212A then 'k'
  else c

/-- The range that a date expression stands for. -/
def parseDate (text : String) (now : DateTime) : Result DateRange :=
  let cs := Text.trim text.toList
  match (fixedFormat? cs).orElse fun _ => phrase? now cs.length (cs.map lowerLetter) with
  | some range => .ok range
  | none => .error (.unparseableDate text)

/-- The range from the start of one date expression to the end of another. -/
def parseBounds (first last : String) (now : DateTime) : Result DateRange := do
  let a ← parseDate first now
  let b ← parseDate last now
  return .span a b

end MetricLayer.Calendar
