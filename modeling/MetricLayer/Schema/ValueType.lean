/-!
# Value types

The type of the values that a dimension takes.
-/

namespace MetricLayer

/-- The type of a dimension's values. -/
inductive ValueType
  | string
  | number
  | boolean
  | date
  | datetime
  | time
deriving DecidableEq, Repr, Inhabited

namespace ValueType

/-- Every value type, in declaration order. -/
def all : List ValueType :=
  [.string, .number, .boolean, .date, .datetime, .time]

/-- The name of a value type. -/
def name : ValueType → String
  | .string => "string"
  | .number => "number"
  | .boolean => "boolean"
  | .date => "date"
  | .datetime => "datetime"
  | .time => "time"

/-- The value type with the given name. -/
def ofName? (name : String) : Option ValueType :=
  all.find? (·.name = name)

/-- Whether values of this type lie on a time axis. -/
def isTemporal : ValueType → Bool
  | .date | .datetime | .time => true
  | .string | .number | .boolean => false

end ValueType

end MetricLayer
