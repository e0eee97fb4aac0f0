import MetricLayer.Calendar.DateTime

/-!
# Ranges of time

A date in a filter stands for an inclusive range of time. A calendar day covers its first to its
last millisecond; a point in time covers itself.
-/

namespace MetricLayer.Calendar

/-- An inclusive range of time. -/
structure DateRange where
  /-- The first point. -/
  first : DateTime
  /-- The last point. -/
  last : DateTime
deriving DecidableEq, Repr

namespace DateRange

/-- The range of a single point. -/
def instant (t : DateTime) : DateRange := ⟨t, t⟩

/-- The days from `first` to `last`. The last day of the calendar ends nowhere, so a range up to
it does not exist. -/
def days? (first last : Date) : Option DateRange :=
  last.succ?.map fun _ => ⟨⟨first, .midnight⟩, ⟨last, .lastMillisecond⟩⟩

/-- One day. -/
def day? (day : Date) : Option DateRange := days? day day

/-- Whole months from `first` on. -/
def months? (first : Date) (count : Nat) : Option DateRange := do
  days? first (← (← first.addMonths? count).pred?)

/-- From the start of one range to the end of another. -/
def span (a b : DateRange) : DateRange := ⟨a.first, b.last⟩

end DateRange

end MetricLayer.Calendar
