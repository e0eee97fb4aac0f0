import MetricLayer.Proofs.Calendar.Extent
import Mathlib.Tactic.Ring

/-!
# Date expressions in words of fixed width

Date expressions are read once more with numbers that have a fixed width: counts of 32 bits,
products of 64 bits, durations that are a 64-bit number of milliseconds, and 32-bit numbers of days
and months to move by. Moving out of the calendar rejects the expression, and so does a number that is
converted to a narrower width and does not fit. A product or a duration has no such check: where it
does not fit, it overflows, and nothing is returned at all.

No text makes this reading overflow, and it gives the ranges and the errors of `parseDate` and
`parseBounds`.

- `Bounded` — a computation that has a value, is rejected or overflows;
- `Bounded.shift`, `Bounded.days`, `Bounded.period`, `Bounded.simplePhrase`, `Bounded.fixedFormat`,
  `Bounded.phrase` — the reading in words of fixed width;
- `Date.addDays?_eq_none_iff`, `Date.addMonths?_eq_none_iff` — moves that leave the calendar;
- `wordValue?_eq` — reading a count digit by digit rejects it exactly where it is too large;
- `parseDate_never_overflows` — the two readings agree, and which errors there are.
-/

namespace MetricLayer.Calendar

/-! ## Leaving the calendar -/

namespace Date

variable {d : Date}

/-- The first day of the calendar. -/
def first : Date := ⟨firstYear, 1, 1⟩

/-- The last day of the calendar. -/
def last : Date := ⟨lastYear, 12, 31⟩

/-- The days of the calendar are those between the first and the last one. -/
theorem dayNumber_mem (hd : d.Valid) :
    first.dayNumber ≤ d.dayNumber ∧ d.dayNumber ≤ last.dayNumber := by
  obtain ⟨hlow, hhigh⟩ := dayNumber_bounds hd
  have hfirst : daysBeforeYear firstYear = first.dayNumber := by decide
  have hlast : daysBeforeYear (lastYear + 1) = last.dayNumber + 1 := by decide
  have hyear := strictMono_daysBeforeYear.monotone hd.1
  have hyear' := strictMono_daysBeforeYear.monotone (Int.add_le_add_right hd.2.1 1)
  omega

/-- Some days later it is before the first or after the last day of the calendar. -/
def LeavesByDays (d : Date) (n : Int) : Prop :=
  d.dayNumber + n < first.dayNumber ∨ last.dayNumber < d.dayNumber + n

instance (d : Date) (n : Int) : Decidable (d.LeavesByDays n) :=
  inferInstanceAs (Decidable (_ ∨ _))

/-- Some months later it is before the first or after the last month of the calendar. -/
def LeavesByMonths (d : Date) (n : Int) : Prop :=
  d.monthNumber + n < first.monthNumber ∨ last.monthNumber < d.monthNumber + n

instance (d : Date) (n : Int) : Decidable (d.LeavesByMonths n) :=
  inferInstanceAs (Decidable (_ ∨ _))

/-- Moving by days is rejected exactly where it leaves the calendar. -/
theorem addDays?_eq_none_iff {n : Int} : d.addDays? n = none ↔ d.LeavesByDays n := by
  unfold LeavesByDays
  constructor
  · intro h
    by_contra hmem
    -- The calendar has no gaps between its first and its last day.
    rw [not_or, not_lt, not_lt] at hmem
    obtain ⟨e, he, hnumber⟩ := exists_dayNumber_eq (by decide : first.Valid)
      (by decide : last.Valid) hmem.1 hmem.2
    rw [addDays?_eq_some_iff.2 ⟨he, hnumber⟩] at h
    cases h
  · intro h
    refine Option.eq_none_iff_forall_ne_some.2 fun e he => ?_
    obtain ⟨hvalid, hnumber⟩ := addDays?_eq_some_iff.1 he
    have hmem := dayNumber_mem hvalid
    omega

/-- Only the last day of the calendar has no day after it. -/
theorem succ?_eq_none_iff (hd : d.Valid) : d.succ? = none ↔ d = last := by
  have hmem := dayNumber_mem hd
  rw [succ?, addDays?_eq_none_iff, LeavesByDays]
  constructor
  · intro h
    exact dayNumber_inj hd (by decide) (by omega)
  · rintro rfl
    exact Or.inr (by omega)

/-- A day can be moved by months as long as the year is one of the calendar. -/
theorem addMonths?_eq_none_iff (hd : d.Valid) {n : Int} :
    d.addMonths? n = none ↔ d.LeavesByMonths n := by
  have htotal : d.year * 12 + (d.month - 1 : Nat) + n = d.monthNumber + n := by
    have hmonth := hd.2.2.1
    unfold monthNumber
    omega
  have hday := hd.2.2.2.2.1
  -- The month is one of the twelve, and the day of the month is cut off, so only the year can leave
  -- the calendar.
  have hvalid (year : Int) (month : Nat) (hmonth : 1 ≤ month ∧ month ≤ 12) :
      Valid ⟨year, month, min d.day (daysInMonth year month)⟩ ↔
        firstYear ≤ year ∧ year ≤ lastYear := by
    have hdays := (daysInMonth_bounds year month).1
    simp only [Valid]
    omega
  have hfirst : first.monthNumber = 12 * firstYear := by decide
  have hlast : last.monthNumber = 12 * lastYear + 11 := by decide
  rw [addMonths?, htotal, ofParts?, ite_eq_right_iff, hvalid _ _ (by omega)]
  simp only [reduceCtorEq, imp_false, LeavesByMonths]
  omega

end Date

/-! ## Words of fixed width -/

/-- An operation whose result has no room. -/
inductive Overflow
  /-- A product of 64-bit numbers. -/
  | product
  /-- A duration, which is a 64-bit number of milliseconds. -/
  | duration
deriving DecidableEq, Repr

/-- A computation that has a value, is rejected or overflows. -/
abbrev Bounded (α : Type) := OptionT (Except Overflow) α

/-- The milliseconds of a day. -/
def millisecondsPerDay : Int := 86400000

/-- The days of a duration are a 32-bit number when a day is moved by it. -/
def Date.addDuration? (d : Date) (milliseconds : Int) : Option Date :=
  let days := milliseconds.tdiv millisecondsPerDay
  if -(2 ^ 31) ≤ days ∧ days < 2 ^ 31 then d.addDays? days else none

/-- A number that fits into 32 bits. -/
def word32? (n : Nat) : Option Nat := if n < UInt32.size then some n else none

/-- A day moved by a 64-bit number of months: without its sign it has to be a 32-bit number, and a
31-bit one for the move. -/
def Date.moveMonths? (d : Date) (n : Int) : Option Date := do
  let count ← word32? n.natAbs
  if count < 2 ^ 31 then d.addMonths? (if n < 0 then -(count : Int) else count) else none

/-- The milliseconds from midnight. -/
def Time.milliseconds (t : Time) : Nat :=
  ((t.hour * 60 + t.minute) * 60 + t.second) * 1000 + t.nanosecond / 1000000

/-- The time some milliseconds and nanoseconds after midnight. -/
def Time.ofMilliseconds (milliseconds nanoseconds : Nat) : Time :=
  ⟨milliseconds / 3600000, milliseconds / 60000 % 60, milliseconds / 1000 % 60,
    milliseconds % 1000 * 1000000 + nanoseconds⟩

/-- A point in time outside of leap seconds, moved by a duration. -/
def DateTime.addDuration? (t : DateTime) (milliseconds : Int) : Option DateTime :=
  let total := t.time.milliseconds + milliseconds
  (t.date.addDuration? (total / millisecondsPerDay * millisecondsPerDay)).map fun date =>
    ⟨date, .ofMilliseconds (total % millisecondsPerDay).toNat (t.time.nanosecond % 1000000)⟩

/-- A count of 32 bits, read digit by digit. -/
def wordValue? (ds : List Char) : Option Nat :=
  ds.foldlM (fun n c => word32? (n * 10 + (c.toNat - '0'.toNat))) 0

/-- The digits of `3 days ago` and `3 days from now`, the unit and the sign of the count. -/
def distanceDigits? (cs : List Char) : Option (List Char × Period × Int) := do
  let (ds, cs) ← digitRun? cs
  let (unit, cs) ← countedUnit? (← blanks? cs)
  let cs ← blanks? cs
  if cs = "ago".toList then some (ds, unit, -1)
  else if cs = "from now".toList then some (ds, unit, 1)
  else none

/-- The digits of `last 7 days` and the unit. -/
def windowDigits? (cs : List Char) : Option (List Char × Period) := do
  let (ds, cs) ← digitRun? (← blanks? (← word? "last" cs))
  let (unit, cs) ← countedUnit? (← blanks? cs)
  if cs.isEmpty then some (ds, unit) else none

namespace Bounded

/-- A product of 64-bit numbers. -/
def product (a b : Int) : Bounded Int :=
  if -(2 ^ 63) ≤ a * b ∧ a * b < 2 ^ 63 then pure (a * b) else OptionT.mk (.error .product)

/-- A duration of `n` times some milliseconds. -/
def duration (milliseconds n : Int) : Bounded Int :=
  if (n * milliseconds).natAbs < 2 ^ 63 then pure (n * milliseconds)
  else OptionT.mk (.error .duration)

/-- The day `n` units later. -/
def shift (day : Date) (unit : Period) (n : Int) : Bounded Date :=
  match unit with
  | .day => do (day.addDuration? (← duration millisecondsPerDay n)).getM
  | .week => do (day.addDuration? (← duration (7 * millisecondsPerDay) n)).getM
  | .month => (day.moveMonths? n).getM
  | .quarter => do (day.moveMonths? (← product n 3)).getM
  | .year => do (day.moveMonths? (← product n 12)).getM

/-- The days from `first` to `last`. Their end is one millisecond before the day after `last`. -/
def days (first last : Date) : Bounded DateRange := do
  let day ← duration millisecondsPerDay 1
  let millisecond ← duration 1 1
  let next ← (DateTime.addDuration? ⟨last, .midnight⟩ day).getM
  return ⟨⟨first, .midnight⟩, ← (next.addDuration? (-millisecond)).getM⟩

/-- Whole months from `first` on. -/
def months (first : Date) (count : Nat) : Bounded DateRange := do
  let next ← (first.moveMonths? count).getM
  days first (← next.pred?.getM)

/-- The calendar period that contains a day, moved by `offset` periods. -/
def period (day : Date) (unit : Period) (offset : Int) : Bounded DateRange :=
  match unit with
  | .day => do
    let moved ← shift day .day offset
    days moved moved
  | .week => do
    let sinceMonday ← duration millisecondsPerDay day.daysSinceMonday
    let monday ← (day.addDuration? (-sinceMonday)).getM
    let first ← shift monday .week offset
    days first (← (first.addDuration? (← duration millisecondsPerDay 6)).getM)
  | .month => do
    let first ← (Date.ofParts? day.year day.month 1).getM
    months (← shift first .month offset) 1
  | .quarter => do
    let first ← (Date.ofParts? day.year ((day.month - 1) / 3 * 3 + 1) 1).getM
    months (← shift first .quarter offset) 3
  | .year => do
    let first ← (Date.ofParts? day.year 1 1).getM
    months (← shift first .year offset) 12

/-- The day that a distance leads to, with the digits of its count and its sign. -/
def distance (today : Date) (ds : List Char) (unit : Period) (sign : Int) : Bounded DateRange := do
  let n ← (wordValue? ds).getM
  let day ← shift today unit (← product sign n)
  days day day

/-- The window up to a day, with the digits of its count. -/
def window (today : Date) (ds : List Char) (unit : Period) : Bounded DateRange := do
  let n ← (wordValue? ds).getM
  if n = 0 then failure
  else
    let before ← shift today unit (← product (-1) n)
    days (← before.succ?.getM) today

/-- The range of a phrase that is not of the form `from X to Y`. A text is taken for a distance or a
window before its count is read. -/
def simplePhrase (now : DateTime) (cs : List Char) : Bounded DateRange :=
  let today := now.date
  if cs = "now".toList then pure (.instant now)
  else if cs = "today".toList then days today today
  else if cs = "yesterday".toList then do
    let day ← today.pred?.getM
    days day day
  else if cs = "tomorrow".toList then do
    let day ← today.succ?.getM
    days day day
  else
    match distanceDigits? cs, namedPeriod? cs, windowDigits? cs with
    | some (ds, unit, sign), _, _ => distance today ds unit sign
    | none, some (unit, offset), _ => period today unit offset
    | none, none, some (ds, unit) => window today ds unit
    | none, none, none => failure

/-- The range that a text in one of the fixed formats stands for. -/
def fixedFormat (cs : List Char) : Bounded DateRange :=
  match whole? (date? cs) with
  | some day => days day day
  | none =>
    match whole? (dateTime? cs), whole? (zonedDateTime? cs) with
    | some t, _ => pure (.instant t)
    | none, some t => pure (.instant t)
    | none, none => do
      let first ← (whole? (date? (cs ++ "-01".toList))).getM
      months first 1

/-- The range of a phrase. The first argument bounds how deeply ranges nest. -/
def phrase (now : DateTime) : (depth : Nat) → List Char → Bounded DateRange
  | 0, cs => simplePhrase now cs
  | depth + 1, cs =>
    match fromTo? cs with
    | some (x, y) => do
      let a ← fixedFormat x <|> phrase now depth x
      let b ← fixedFormat y <|> phrase now depth y
      return .span a b
    | none => simplePhrase now cs

/-- The range that a date expression stands for, or the error, unless reading it overflows. -/
def parseDate (text : String) (now : DateTime) : Except Overflow (Result DateRange) := do
  let cs := Text.trim text.toList
  match ← (fixedFormat cs <|> phrase now cs.length (cs.map lowerLetter)).run with
  | some range => return .ok range
  | none => return .error (.unparseableDate text)

/-- The range from the start of one date expression to the end of another, or the error, unless
reading them overflows. -/
def parseBounds (first last : String) (now : DateTime) : Except Overflow (Result DateRange) := do
  match ← parseDate first now with
  | .error e => return .error e
  | .ok a =>
    match ← parseDate last now with
    | .error e => return .error e
    | .ok b => return .ok (.span a b)

/-! ## What the words have room for -/

/-- A duration that fits its word is the product it stands for. -/
theorem duration_eq {milliseconds n : Int} (h : (n * milliseconds).natAbs < 2 ^ 63) :
    duration milliseconds n = pure (n * milliseconds) := if_pos h

/-- A product that fits its word is the exact one. -/
theorem product_eq {a b : Int} (hlow : -(2 ^ 63) ≤ a * b) (hhigh : a * b < 2 ^ 63) :
    product a b = pure (a * b) := if_pos ⟨hlow, hhigh⟩

theorem getM_some {α : Type} (a : α) : ((some a).getM : Bounded α) = pure a := rfl

/-- What follows a rejected computation is not reached. -/
theorem getM_bind {α β : Type} {o : Option α} {f : α → Bounded β} {g : α → Option β}
    (h : ∀ a, o = some a → f a = (g a).getM) : (o.getM >>= f) = (o.bind g).getM := by
  cases o with
  | none => rfl
  | some a => exact h a rfl

/-- The first reading that there is counts, as it does without words. -/
theorem getM_orElse {α : Type} (o p : Option α) :
    ((o.getM : Bounded α) <|> p.getM) = (o.orElse fun _ => p).getM := by
  cases o <;> rfl

/-- Nothing overflows in a step that has no words. -/
theorem run_getM {α : Type} (o : Option α) : (o.getM : Bounded α).run = .ok o := by
  cases o <;> rfl

end Bounded

section Moves

variable {d : Date}

/-- A number of days that has no room in 32 bits leaves the calendar. -/
theorem Date.addDuration?_eq (hd : d.Valid) (n : Int) :
    d.addDuration? (n * millisecondsPerDay) = d.addDays? n := by
  have hmem := dayNumber_mem hd
  have hfirst : -(2 ^ 30) ≤ first.dayNumber := by decide
  have hlast : last.dayNumber < 2 ^ 30 := by decide
  have hdays : (n * millisecondsPerDay).tdiv millisecondsPerDay = n :=
    Int.mul_tdiv_cancel n (by decide)
  rw [addDuration?, hdays]
  split_ifs with hwidth
  · rfl
  · exact (addDays?_eq_none_iff.2 (by unfold LeavesByDays; omega)).symm

/-- The months of the calendar are those of its days. -/
theorem Date.monthNumber_mem (hd : d.Valid) :
    first.monthNumber ≤ d.monthNumber ∧ d.monthNumber ≤ last.monthNumber := by
  obtain ⟨hyear, hyear', hmonth, hmonth', -⟩ := hd
  simp only [monthNumber, first, last]
  omega

/-- A number of months that has no room in 31 bits leaves the calendar. -/
theorem Date.moveMonths?_eq (hd : d.Valid) (n : Int) : d.moveMonths? n = d.addMonths? n := by
  have hmem := monthNumber_mem hd
  have hfirst : -(2 ^ 30) ≤ first.monthNumber := by decide
  have hlast : last.monthNumber < 2 ^ 30 := by decide
  have hsize : UInt32.size = 2 ^ 32 := rfl
  have hsign : (if n < 0 then -(n.natAbs : Int) else n.natAbs) = n := by
    split_ifs <;> omega
  -- All months of the calendar lie within `2 ^ 30` of zero, so a greater distance leads out of it.
  by_cases hroom : n.natAbs < 2 ^ 31
  · have hword : word32? n.natAbs = some n.natAbs := if_pos (by omega)
    rw [moveMonths?, hword, Option.bind_eq_bind, Option.bind_some, if_pos hroom, hsign]
  · have hleaves : d.LeavesByMonths n := by
      unfold LeavesByMonths
      omega
    rw [(addMonths?_eq_none_iff hd).2 hleaves, Option.eq_none_iff_forall_ne_some]
    intro e he
    obtain ⟨count, hcount, he⟩ := Option.bind_eq_some_iff.1 he
    rw [word32?] at hcount
    split_ifs at hcount
    obtain rfl := Option.some.inj hcount
    rw [if_neg hroom] at he
    cases he

/-- A day after midnight of a day is midnight of the next day. -/
theorem DateTime.addDuration?_day (hd : d.Valid) :
    addDuration? ⟨d, .midnight⟩ millisecondsPerDay = d.succ?.map fun e => ⟨e, .midnight⟩ := by
  have hdays : (Time.midnight.milliseconds + millisecondsPerDay) / millisecondsPerDay = 1 := by
    decide
  have htime : Time.ofMilliseconds ((Time.midnight.milliseconds + millisecondsPerDay) %
      millisecondsPerDay).toNat (Time.midnight.nanosecond % 1000000) = .midnight := by
    decide
  rw [addDuration?, hdays, d.addDuration?_eq hd, htime]
  rfl

/-- A millisecond before midnight of a day is the last millisecond of the day before. -/
theorem DateTime.addDuration?_neg_millisecond (hd : d.Valid) :
    addDuration? ⟨d, .midnight⟩ (-1) = d.pred?.map fun e => ⟨e, .lastMillisecond⟩ := by
  have hdays : (Time.midnight.milliseconds + -1) / millisecondsPerDay = -1 := by decide
  have htime : Time.ofMilliseconds ((Time.midnight.milliseconds + -1) % millisecondsPerDay).toNat
      (Time.midnight.nanosecond % 1000000) = .lastMillisecond := by
    decide
  rw [addDuration?, hdays, d.addDuration?_eq hd, htime]
  rfl

/-- The day before the next day is the day itself. -/
theorem Date.pred?_of_succ? (hd : d.Valid) {e : Date} (h : d.succ? = some e) :
    e.pred? = some d := by
  rw [pred?_eq_some_iff]
  exact ⟨hd, (succ?_eq_some_iff.1 h).2.symm⟩

end Moves

/-! ## Counts -/

/-- More digits make no smaller number. -/
private theorem le_foldl_digits (ds : List Char) (n : Nat) :
    n ≤ ds.foldl (fun n c => n * 10 + (c.toNat - '0'.toNat)) n := by
  induction ds generalizing n with
  | nil => exact le_rfl
  | cons d ds ih =>
    have hnext : n ≤ n * 10 + (d.toNat - '0'.toNat) := by omega
    exact hnext.trans (ih _)

/-- Once a number does not fit, it does not fit with more digits either. -/
private theorem foldlM_word32? (ds : List Char) {n : Nat} (hn : n < UInt32.size) :
    ds.foldlM (fun n c => word32? (n * 10 + (c.toNat - '0'.toNat))) n =
      word32? (ds.foldl (fun n c => n * 10 + (c.toNat - '0'.toNat)) n) := by
  induction ds generalizing n with
  | nil => exact (if_pos hn).symm
  | cons d ds ih =>
    rw [List.foldlM_cons, List.foldl_cons]
    by_cases hroom : n * 10 + (d.toNat - '0'.toNat) < UInt32.size
    · rw [word32?, if_pos hroom]
      exact ih hroom
    · have hnext := le_foldl_digits ds (n * 10 + (d.toNat - '0'.toNat))
      rw [word32?, if_neg hroom, word32?, if_neg (by omega)]
      rfl

/-- Digit by digit a count is rejected exactly where it is too large. -/
theorem wordValue?_eq (ds : List Char) : wordValue? ds = word32? (digitsValue ds) :=
  foldlM_word32? ds (by decide)

/-- A number that is read into a word is below its size. -/
theorem lt_of_wordValue? {ds : List Char} {n : Nat} (h : wordValue? ds = some n) :
    n < UInt32.size := by
  rw [wordValue?_eq, word32?] at h
  split_ifs at h with hroom
  rwa [← Option.some.inj h]

section Readers

variable (cs : List Char)

/-- A count is a run of digits that fits into a word. -/
theorem count?_eq : count? cs =
    (digitRun? cs).bind fun run => (wordValue? run.1).map fun n => (n, run.2) := by
  rw [count?, Option.bind_eq_bind]
  refine congrArg _ (funext fun run => ?_)
  dsimp only
  rw [wordValue?_eq, word32?]
  split_ifs <;> rfl

/-- It makes no difference whether a count is read before or after the words behind it. -/
theorem distance?_eq : distance? cs = (distanceDigits? cs).bind fun found =>
    (wordValue? found.1).map fun n : Nat => (found.2.1, found.2.2 * n) := by
  -- The digits are read first on both sides. What follows them is moved in front of their value,
  -- reader by reader.
  simp only [distance?, distanceDigits?, count?_eq, Option.bind_eq_bind, Option.bind_assoc]
  refine congrArg _ (funext fun run => ?_)
  rw [Option.bind_map]
  dsimp only [Function.comp_def]
  rw [Option.bind_comm]
  refine congrArg _ (funext fun afterCount => ?_)
  rw [Option.bind_comm]
  refine congrArg _ (funext fun unit => ?_)
  rw [Option.bind_comm]
  refine congrArg _ (funext fun direction => ?_)
  split_ifs
  · rw [Option.bind_some, Option.map_eq_bind]
    simp only [neg_one_mul]
    rfl
  · rw [Option.bind_some, Option.map_eq_bind]
    simp only [one_mul]
    rfl
  · exact Option.bind_fun_none _

/-- A window is its unit and a number that fits into a word. -/
theorem window?_eq : window? cs =
    (windowDigits? cs).bind fun found => (wordValue? found.1).map fun n => (found.2, n) := by
  simp only [window?, windowDigits?, count?_eq, Option.bind_eq_bind, Option.bind_assoc]
  refine congrArg _ (funext fun afterWord => congrArg _ (funext fun atCount => ?_))
  refine congrArg _ (funext fun run => ?_)
  -- What is read after the digits does not depend on their value, so the value can be taken last.
  rw [Option.bind_map]
  dsimp only [Function.comp_def]
  rw [Option.bind_comm]
  refine congrArg _ (funext fun afterCount => ?_)
  rw [Option.bind_comm]
  refine congrArg _ (funext fun unit => ?_)
  split_ifs
  · rw [Option.bind_some, Option.map_eq_bind]
    rfl
  · exact Option.bind_fun_none _

variable {cs}

/-- A distance starts with a digit, and its sign is that of one unit. -/
theorem exists_of_distanceDigits? {ds : List Char} {unit : Period} {sign : Int}
    (h : distanceDigits? cs = some (ds, unit, sign)) :
    (∃ d rest, cs = d :: rest ∧ d.isDigit = true) ∧ sign.natAbs = 1 := by
  obtain ⟨⟨ds', rest₁⟩, hrun, h⟩ := Option.bind_eq_some_iff.1 h
  obtain ⟨rest₂, -, h⟩ := Option.bind_eq_some_iff.1 h
  obtain ⟨⟨unit', rest₃⟩, -, h⟩ := Option.bind_eq_some_iff.1 h
  obtain ⟨rest₄, -, h⟩ := Option.bind_eq_some_iff.1 h
  obtain ⟨d, rest, hcs, hd, -⟩ := exists_of_digits? Nat.one_pos hrun
  refine ⟨⟨d, rest, hcs, hd⟩, ?_⟩
  split_ifs at h
  all_goals
    cases h
    rfl

/-- The words in front of periods and windows start with letters. -/
theorem word?_of_isDigit {word : String} (hword : word ∈ ["last", "this", "next"]) {d : Char}
    {rest : List Char} (hd : d.isDigit = true) : word? word (d :: rest) = none := by
  have hletter : ∀ word ∈ ["last", "this", "next"],
      ∃ c cs, word.toList = c :: cs ∧ c.isDigit = false := by
    simp
  obtain ⟨c, cs, hc, hdigit⟩ := hletter word hword
  refine Option.eq_none_iff_forall_ne_some.2 fun rest' h => ?_
  have happend := eq_append_of_word? h
  rw [hc] at happend
  rw [(List.cons.inj happend).1, hdigit] at hd
  cases hd

/-- No named period starts with a digit. -/
theorem namedPeriod?_of_isDigit {d : Char} {rest : List Char} (hd : d.isDigit = true) :
    namedPeriod? (d :: rest) = none := by
  simp [namedPeriod?, word?_of_isDigit _ hd]

/-- No window starts with a digit. -/
theorem windowDigits?_of_isDigit {d : Char} {rest : List Char} (hd : d.isDigit = true) :
    windowDigits? (d :: rest) = none := by
  simp [windowDigits?, word?_of_isDigit _ hd]

/-- A named period is at most one period away. -/
theorem natAbs_le_of_namedPeriod? {unit : Period} {offset : Int}
    (h : namedPeriod? cs = some (unit, offset)) : offset.natAbs ≤ 1 := by
  obtain ⟨⟨offset', rest⟩, hfound, h⟩ := Option.bind_eq_some_iff.1 h
  obtain ⟨rest', -, h⟩ := Option.bind_eq_some_iff.1 h
  obtain ⟨⟨unit', rest''⟩, -, h⟩ := Option.bind_eq_some_iff.1 h
  dsimp only at h
  split_ifs at h
  obtain ⟨-, rfl⟩ := Prod.mk.inj (Option.some.inj h)
  obtain ⟨⟨word, n⟩, hmem, hword⟩ := List.exists_of_findSome?_eq_some hfound
  obtain ⟨rest₀, -, heq⟩ := Option.map_eq_some_iff.1 hword
  obtain ⟨rfl, -⟩ := Prod.mk.inj heq
  simp only [List.mem_cons, Prod.mk.injEq, List.not_mem_nil, or_false] at hmem
  omega

end Readers

/-! ## Nothing overflows -/

namespace Bounded

variable {day first last : Date} {unit : Period} {n : Int}

/-- A 32-bit count of units has room everywhere. -/
theorem shift_eq (hday : day.Valid) (hn : n.natAbs < UInt32.size) (unit : Period) :
    shift day unit n = (shift? day unit n).getM := by
  -- Not even weeks, the longest duration, or years, the largest product, come close to 2 ^ 63.
  have hsize : UInt32.size = 2 ^ 32 := rfl
  cases unit with
  | day =>
    have hroom : (n * millisecondsPerDay).natAbs < 2 ^ 63 := by
      unfold millisecondsPerDay
      omega
    rw [shift, duration_eq hroom, pure_bind, day.addDuration?_eq hday]
    rfl
  | week =>
    have hroom : (n * (7 * millisecondsPerDay)).natAbs < 2 ^ 63 := by
      unfold millisecondsPerDay
      omega
    have hweeks : n * (7 * millisecondsPerDay) = 7 * n * millisecondsPerDay := by ring
    rw [shift, duration_eq hroom, pure_bind, hweeks, day.addDuration?_eq hday]
    rfl
  | month =>
    rw [shift, day.moveMonths?_eq hday]
    rfl
  | quarter =>
    rw [shift, product_eq (by omega) (by omega), pure_bind, day.moveMonths?_eq hday, mul_comm]
    rfl
  | year =>
    rw [shift, product_eq (by omega) (by omega), pure_bind, day.moveMonths?_eq hday, mul_comm]
    rfl

/-- A range of days is the same with words. -/
theorem days_eq (hlast : last.Valid) (first : Date) :
    days first last = (DateRange.days? first last).getM := by
  have hday : duration millisecondsPerDay 1 = pure millisecondsPerDay := by
    rw [duration_eq (by decide), one_mul]
  have hmillisecond : duration 1 1 = pure 1 := duration_eq (by decide)
  rw [days, hday, pure_bind, hmillisecond, pure_bind, DateTime.addDuration?_day hlast]
  cases hnext : last.succ? with
  | none =>
    rw [DateRange.days?, hnext]
    rfl
  | some next =>
    -- The way to the next midnight and one millisecond back ends on the day itself.
    have hvalid := (Date.succ?_eq_some_iff.1 hnext).1
    have hend : DateTime.addDuration? ⟨next, .midnight⟩ (-1) = some ⟨last, .lastMillisecond⟩ := by
      rw [DateTime.addDuration?_neg_millisecond hvalid, Date.pred?_of_succ? hlast hnext]
      rfl
    rw [DateRange.days?, hnext, Option.map_some, getM_some, pure_bind, hend]
    rfl

/-- A whole day is the same with words. -/
theorem day_eq (hday : day.Valid) : days day day = (DateRange.day? day).getM := days_eq hday day

/-- Whole months are the same with words. -/
theorem months_eq (hfirst : first.Valid) (count : Nat) :
    months first count = (DateRange.months? first count).getM := by
  rw [months, first.moveMonths?_eq hfirst]
  refine getM_bind fun next _ => getM_bind fun last hlast => ?_
  exact days_eq (Date.pred?_eq_some_iff.1 hlast).1 first

/-- A named period is the same with words. -/
theorem period_eq (hday : day.Valid) (hn : n.natAbs < UInt32.size) (unit : Period) :
    period day unit n = (period? day unit n).getM := by
  have hstart {year : Int} {month : Nat} {start : Date}
      (h : Date.ofParts? year month 1 = some start) : start.Valid :=
    (Date.ofParts?_eq_some_iff.1 h).1
  cases unit with
  | day =>
    rw [period, shift_eq hday hn]
    exact getM_bind fun moved hmoved => day_eq (valid_of_shift? hday hmoved)
  | week =>
    -- Monday, the moved Monday and the Sunday after it may each leave the calendar.
    have hroom : ((day.daysSinceMonday : Int) * millisecondsPerDay).natAbs < 2 ^ 63 := by
      unfold Date.daysSinceMonday millisecondsPerDay
      omega
    rw [period, duration_eq hroom, pure_bind, ← neg_mul, day.addDuration?_eq hday]
    refine getM_bind fun monday hmonday => ?_
    have hmondayValid := (Date.addDays?_eq_some_iff.1 hmonday).1
    rw [shift_eq hmondayValid hn]
    refine getM_bind fun first hfirst => ?_
    have hfirstValid := valid_of_shift? hmondayValid hfirst
    rw [duration_eq (by decide), pure_bind, first.addDuration?_eq hfirstValid]
    exact getM_bind fun last hlast => days_eq (Date.addDays?_eq_some_iff.1 hlast).1 first
  | month =>
    refine getM_bind fun start hvalid => ?_
    rw [shift_eq (hstart hvalid) hn]
    exact getM_bind fun moved hmoved => months_eq (valid_of_shift? (hstart hvalid) hmoved) 1
  | quarter =>
    refine getM_bind fun start hvalid => ?_
    rw [shift_eq (hstart hvalid) hn]
    exact getM_bind fun moved hmoved => months_eq (valid_of_shift? (hstart hvalid) hmoved) 3
  | year =>
    refine getM_bind fun start hvalid => ?_
    rw [shift_eq (hstart hvalid) hn]
    exact getM_bind fun moved hmoved => months_eq (valid_of_shift? (hstart hvalid) hmoved) 12

/-- A fixed format is read the same with words. -/
theorem fixedFormat_eq (cs : List Char) : fixedFormat cs = (fixedFormat? cs).getM := by
  unfold fixedFormat fixedFormat?
  cases hday : whole? (date? cs) with
  | some day => exact day_eq (valid_of_date? (whole?_eq_some_iff.1 hday))
  | none =>
    cases whole? (dateTime? cs) with
    | some t => rfl
    | none =>
      cases whole? (zonedDateTime? cs) with
      | some t => rfl
      | none =>
        refine getM_bind fun first hfirst => ?_
        exact months_eq (valid_of_date? (whole?_eq_some_iff.1 hfirst)) 1

/-- A day at some distance is the same with words, where the distance fits. -/
theorem distance_eq (hday : day.Valid) (ds : List Char) (unit : Period) {sign : Int}
    (hsign : sign.natAbs = 1) : distance day ds unit sign =
      ((wordValue? ds).bind fun n => (shift? day unit (sign * n)).bind DateRange.day?).getM := by
  refine getM_bind fun n hn => ?_
  have hsize : UInt32.size = 2 ^ 32 := rfl
  have hcount : (sign * n).natAbs < UInt32.size := by
    rw [Int.natAbs_mul, hsign, one_mul]
    exact lt_of_wordValue? hn
  rw [product_eq (by omega) (by omega), pure_bind, shift_eq hday hcount]
  exact getM_bind fun moved hmoved => day_eq (valid_of_shift? hday hmoved)

/-- A rolling window is the same with words, where its length fits. -/
theorem window_eq (hday : day.Valid) (ds : List Char) (unit : Period) : window day ds unit =
    ((wordValue? ds).bind fun n =>
      if n = 0 then none
      else do DateRange.days? (← (← shift? day unit (-(n : Int))).succ?) day).getM := by
  refine getM_bind fun n hn => ?_
  have hsize : UInt32.size = 2 ^ 32 := rfl
  have hcount := lt_of_wordValue? hn
  split_ifs
  · rfl
  · rw [product_eq (by omega) (by omega), pure_bind, neg_one_mul, shift_eq hday (by omega)]
    exact getM_bind fun before _ => getM_bind fun first _ => days_eq hday first

variable {now : DateTime}

/-- A phrase without parts is read the same with words. -/
theorem simplePhrase_eq (hnow : now.date.Valid) (cs : List Char) :
    simplePhrase now cs = (simplePhrase? now cs).getM := by
  unfold simplePhrase simplePhrase?
  dsimp only
  split_ifs
  · rfl
  · exact day_eq hnow
  · exact getM_bind fun day hday => day_eq (Date.pred?_eq_some_iff.1 hday).1
  · exact getM_bind fun day hday => day_eq (Date.succ?_eq_some_iff.1 hday).1
  · rw [distance?_eq, window?_eq]
    cases hdistance : distanceDigits? cs with
    | some digits =>
      -- The text is a distance, so nothing else is tried where its count is too large.
      obtain ⟨ds, unit, sign⟩ := digits
      obtain ⟨⟨d, rest, rfl, hd⟩, hsign⟩ := exists_of_distanceDigits? hdistance
      rw [namedPeriod?_of_isDigit hd, windowDigits?_of_isDigit hd]
      dsimp only
      rw [distance_eq hnow ds unit hsign, Option.bind_some]
      cases wordValue? ds <;> rfl
    | none =>
      cases hperiod : namedPeriod? cs with
      | some period =>
        obtain ⟨unit, offset⟩ := period
        have hsize : UInt32.size = 2 ^ 32 := rfl
        have hoffset := natAbs_le_of_namedPeriod? hperiod
        exact period_eq hnow (by omega) unit
      | none =>
        cases windowDigits? cs with
        | none => rfl
        | some digits =>
          obtain ⟨ds, unit⟩ := digits
          dsimp only
          rw [window_eq hnow, Option.bind_some]
          cases wordValue? ds <;> rfl

/-- However deeply ranges nest, nothing overflows in their parts. -/
theorem phrase_eq (hnow : now.date.Valid) (depth : Nat) (cs : List Char) :
    phrase now depth cs = (phrase? now depth cs).getM := by
  -- Induction on the depth, for all texts, since both parts of a range are read one level deeper.
  induction depth generalizing cs with
  | zero => exact simplePhrase_eq hnow cs
  | succ depth ih =>
    rw [phrase, phrase?]
    cases fromTo? cs with
    | none => exact simplePhrase_eq hnow cs
    | some parts =>
      obtain ⟨x, y⟩ := parts
      dsimp only
      rw [fixedFormat_eq, fixedFormat_eq, ih, ih, getM_orElse, getM_orElse]
      exact getM_bind fun a _ => getM_bind fun b _ => rfl

/-- A date expression is read the same with words, and nothing overflows. -/
theorem parseDate_eq (hnow : now.date.Valid) (text : String) :
    parseDate text now = .ok (Calendar.parseDate text now) := by
  rw [parseDate, fixedFormat_eq, phrase_eq hnow, getM_orElse, run_getM, Calendar.parseDate]
  cases (fixedFormat? (Text.trim text.toList)).orElse fun _ =>
    phrase? now (Text.trim text.toList).length ((Text.trim text.toList).map lowerLetter) <;> rfl

/-- A pair of date expressions is read the same with words, and nothing overflows. -/
theorem parseBounds_eq (hnow : now.date.Valid) (first last : String) :
    parseBounds first last now = .ok (Calendar.parseBounds first last now) := by
  rw [parseBounds, parseDate_eq hnow, parseDate_eq hnow, Calendar.parseBounds]
  cases Calendar.parseDate first now with
  | error e => rfl
  | ok a =>
    cases Calendar.parseDate last now with
    | error e => rfl
    | ok b => rfl

end Bounded

/-! ## What reading comes to -/

section Outcomes

variable {now : DateTime} {r : DateRange}

/-- A text that may be in a fixed format or else stand for another range. -/
theorem valid_of_fixedFormat?_orElse {cs : List Char} {o : Option DateRange}
    (ho : o = some r → r.Valid) (h : ((fixedFormat? cs).orElse fun _ => o) = some r) : r.Valid := by
  cases hfixed : fixedFormat? cs with
  | none =>
    rw [hfixed] at h
    exact ho h
  | some range =>
    rw [hfixed] at h
    obtain rfl : range = r := Option.some.inj h
    exact (proper_of_fixedFormat? hfixed).toValid

/-- The ends of the range of a phrase exist. -/
theorem valid_of_phrase? (hnow : now.Valid) {depth : Nat} {cs : List Char}
    (h : phrase? now depth cs = some r) : r.Valid := by
  -- By induction on the depth: both expressions of a range are read at a smaller one.
  induction depth generalizing cs r with
  | zero => exact (proper_of_simplePhrase? hnow h).toValid
  | succ depth ih =>
    rw [phrase?] at h
    cases hparts : fromTo? cs with
    | none =>
      rw [hparts] at h
      exact (proper_of_simplePhrase? hnow h).toValid
    | some parts =>
      obtain ⟨x, y⟩ := parts
      rw [hparts] at h
      obtain ⟨a, ha, h⟩ := Option.bind_eq_some_iff.1 h
      obtain ⟨b, hb, h⟩ := Option.bind_eq_some_iff.1 h
      obtain rfl := Option.some.inj h
      exact ⟨(valid_of_fixedFormat?_orElse ih ha).first, (valid_of_fixedFormat?_orElse ih hb).last⟩

/-- A range that is read has valid ends. -/
theorem valid_of_parseDate (hnow : now.Valid) {text : String} (h : parseDate text now = .ok r) :
    r.Valid := by
  rw [parseDate_eq_ok_iff] at h
  exact valid_of_fixedFormat?_orElse (valid_of_phrase? hnow) h

/-- A text that stands for nothing is the one that the error names. -/
theorem parseDate_eq_ok_or_error (hnow : now.Valid) (text : String) :
    (∃ r, parseDate text now = .ok r ∧ r.Valid) ∨
      parseDate text now = .error (.unparseableDate text) := by
  cases h : parseDate text now with
  | ok r => exact .inl ⟨r, rfl, valid_of_parseDate hnow h⟩
  | error e =>
    unfold parseDate at h
    dsimp only at h
    split at h
    · cases h
    · exact .inr h.symm

end Outcomes

/-- No text and no reference time makes reading overflow. It gives a range whose ends exist, or it
names the text that stands for nothing, which for two expressions is the first such one. Moving a
day is rejected exactly where it leads out of the calendar, and only the last day of the calendar
does not end. -/
theorem parseDate_never_overflows {now : DateTime} (hnow : now.Valid) :
    (∀ text, Bounded.parseDate text now = .ok (parseDate text now) ∧
      ((∃ r, parseDate text now = .ok r ∧ r.Valid) ∨
        parseDate text now = .error (.unparseableDate text))) ∧
    (∀ first last, Bounded.parseBounds first last now = .ok (parseBounds first last now) ∧
      ((∃ a b, parseDate first now = .ok a ∧ parseDate last now = .ok b ∧
          parseBounds first last now = .ok (.span a b) ∧ (DateRange.span a b).Valid) ∨
        (parseDate first now = .error (.unparseableDate first) ∧
          parseBounds first last now = .error (.unparseableDate first)) ∨
        ((∃ a, parseDate first now = .ok a) ∧
          parseDate last now = .error (.unparseableDate last) ∧
          parseBounds first last now = .error (.unparseableDate last)))) ∧
    ∀ day : Date, day.Valid →
      (∀ n, (day.addDuration? (n * millisecondsPerDay) = none ↔ day.LeavesByDays n) ∧
        (day.moveMonths? n = none ↔ day.LeavesByMonths n)) ∧
      (∀ n, n.natAbs < UInt32.size → ∀ unit,
        (Bounded.shift day unit n).run = .ok (shift? day unit n)) ∧
      ∀ first, (Bounded.days first day).run = .ok (DateRange.days? first day) ∧
        (DateRange.days? first day = none ↔ day = .last) := by
  refine ⟨fun text => ⟨Bounded.parseDate_eq hnow.date text, parseDate_eq_ok_or_error hnow text⟩,
    fun first last => ⟨Bounded.parseBounds_eq hnow.date first last, ?_⟩,
    fun day hday => ⟨fun n => ⟨?_, ?_⟩, fun n hn unit => ?_, fun first => ⟨?_, ?_⟩⟩⟩
  · rcases parseDate_eq_ok_or_error hnow first with ⟨a, ha, hvalid⟩ | hfirst
    · rcases parseDate_eq_ok_or_error hnow last with ⟨b, hb, hvalid'⟩ | hlast
      · refine .inl ⟨a, b, ha, hb, ?_, hvalid.first, hvalid'.last⟩
        rw [parseBounds, ha, hb]
        rfl
      · refine .inr (.inr ⟨⟨a, ha⟩, hlast, ?_⟩)
        rw [parseBounds, ha, hlast]
        rfl
    · refine .inr (.inl ⟨hfirst, ?_⟩)
      rw [parseBounds, hfirst]
      rfl
  · rw [day.addDuration?_eq hday, Date.addDays?_eq_none_iff]
  · rw [day.moveMonths?_eq hday, Date.addMonths?_eq_none_iff hday]
  · rw [Bounded.shift_eq hday hn, Bounded.run_getM]
  · rw [Bounded.days_eq hday, Bounded.run_getM]
  · rw [DateRange.days?, Option.map_eq_none_iff, Date.succ?_eq_none_iff hday]

/-- The leap second at the end of the calendar. -/
private def calendarEnd : DateTime := ⟨.last, ⟨23, 59, 60, 999999999⟩⟩

/-- At the end of the calendar there is the present moment, but no end of the present day. Counts
may have any number of digits. -/
theorem parseDate_never_overflows_calendarEnd :
    calendarEnd.Valid ∧
      Bounded.parseDate "now" calendarEnd = .ok (.ok (.instant calendarEnd)) ∧
      (∀ text ∈ ["today", "this week", "next year", "last 0 days", "4294967295 weeks from now",
        "4294967295 years ago", "last 99999999999999999999 months", "from yesterday to today"],
        Bounded.parseDate text calendarEnd = .ok (.error (.unparseableDate text))) ∧
      Bounded.parseBounds "yesterday" "Tomorrow" calendarEnd =
        .ok (.error (.unparseableDate "Tomorrow")) ∧
      Date.last.moveMonths? (-4294967295) = none ∧
      (Bounded.shift .first .week 27350000).run = .ok (some ⟨262029, 4, 19⟩) ∧
      (Bounded.days .first .last).run = .ok none := by
  have hvalid : calendarEnd.Valid := by decide
  obtain ⟨hdate, hbounds, hmoves⟩ := parseDate_never_overflows hvalid
  obtain ⟨hlast, -, hend⟩ := hmoves .last (by decide)
  obtain ⟨-, hshift, -⟩ := hmoves .first (by decide)
  refine ⟨hvalid, ?_, fun text htext => ?_, ?_, (hlast _).2.2 (by decide), ?_, ?_⟩
  · rw [(hdate "now").1]
    decide +kernel
  · have herror : ∀ text ∈ ["today", "this week", "next year", "last 0 days",
        "4294967295 weeks from now", "4294967295 years ago", "last 99999999999999999999 months",
        "from yesterday to today"],
        parseDate text calendarEnd = .error (.unparseableDate text) := by
      decide +kernel
    rw [(hdate text).1, herror text htext]
  · rw [(hbounds _ _).1]
    decide +kernel
  · rw [hshift 27350000 (by decide)]
    decide +kernel
  · rw [(hend .first).1, (hend .first).2.2 rfl]

end MetricLayer.Calendar
