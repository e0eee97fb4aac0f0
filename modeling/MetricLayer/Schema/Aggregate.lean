/-!
# Ad-hoc aggregates

A dimension can be aggregated without a declared metric, by ending its path in `adhoc_` and the
name of an aggregate.
-/

namespace MetricLayer

/-- An aggregate function. -/
inductive Aggregate
  | count
  | countDistinct
  | sum
  | min
  | max
  | avg
deriving DecidableEq, Repr

namespace Aggregate

/-- Every aggregate, in declaration order. -/
def all : List Aggregate :=
  [.count, .countDistinct, .sum, .min, .max, .avg]

/-- The name of an aggregate. -/
def name : Aggregate → String
  | .count => "count"
  | .countDistinct => "count_distinct"
  | .sum => "sum"
  | .min => "min"
  | .max => "max"
  | .avg => "avg"

/-- What the last part of a path starts with where it names an aggregate. -/
def suffixMark : String := "adhoc_"

/-- The last part of the path of a dimension under this aggregate. -/
def suffix (a : Aggregate) : String :=
  suffixMark ++ a.name

/-- The aggregate that the last part of a path names. -/
def ofSuffix? (suffix : String) : Option Aggregate :=
  all.find? (·.suffix = suffix)

/-- What stands before an expression under an aggregate. A closing parenthesis follows it. -/
def opening : Aggregate → String
  | .count => "count("
  | .countDistinct => "count(distinct "
  | .sum => "sum("
  | .min => "min("
  | .max => "max("
  | .avg => "avg("

/-- Apply an aggregate to the text of an expression. -/
def apply (a : Aggregate) (expr : String) : String :=
  a.opening ++ expr ++ ")"

end Aggregate

end MetricLayer
