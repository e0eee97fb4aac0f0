import MetricLayer.Schema.ValueType

/-!
# Granularities

A granularity derives a coarser dimension from a temporal one. It either truncates the value
(`year`, `month`, …) or extracts a numeric part of it (`month_num`, `hour_of_day`, …).
-/

namespace MetricLayer

/-- A unit of truncation or extraction. -/
inductive Granularity
  | time
  | date
  | year
  | quarter
  | quarterOfYear
  | month
  | monthNumber
  | week
  | weekNumber
  | dayOfMonth
  | hour
  | hourOfDay
  | minute
deriving DecidableEq, Repr

namespace Granularity

/-- Every granularity, in declaration order. -/
def all : List Granularity :=
  [.time, .date, .year, .quarter, .quarterOfYear, .month, .monthNumber, .week, .weekNumber,
    .dayOfMonth, .hour, .hourOfDay, .minute]

/-- The tag of a granularity, as it ends a member path. -/
def tag : Granularity → String
  | .time => "time"
  | .date => "date"
  | .year => "year"
  | .quarter => "quarter"
  | .quarterOfYear => "quarter_of_year"
  | .month => "month"
  | .monthNumber => "month_num"
  | .week => "week"
  | .weekNumber => "week_num"
  | .dayOfMonth => "day_of_month"
  | .hour => "hour"
  | .hourOfDay => "hour_of_day"
  | .minute => "minute"

/-- The granularity with the given tag. -/
def ofTag? (tag : String) : Option Granularity :=
  all.find? (·.tag = tag)

/-- Whether the granularity can be derived from a dimension of the given type. Dates have no time
of day, and times have no calendar part. -/
def appliesTo (g : Granularity) : ValueType → Bool
  | .datetime => true
  | .date =>
    match g with
    | .date | .year | .quarter | .quarterOfYear | .month | .monthNumber | .week | .weekNumber
    | .dayOfMonth => true
    | .time | .hour | .hourOfDay | .minute => false
  | .time =>
    match g with
    | .time | .hour | .hourOfDay | .minute => true
    | .date | .year | .quarter | .quarterOfYear | .month | .monthNumber | .week | .weekNumber
    | .dayOfMonth => false
  | .string | .number | .boolean => false

/-- The type of the derived dimension. -/
def resultType : Granularity → ValueType
  | .time => .time
  | .date => .date
  | .year | .quarter | .month | .week | .hour | .minute => .datetime
  | .quarterOfYear | .monthNumber | .weekNumber | .dayOfMonth | .hourOfDay => .number

end Granularity

end MetricLayer
