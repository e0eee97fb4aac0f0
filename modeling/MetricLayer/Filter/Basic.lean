import MetricLayer.Distinct
import MetricLayer.Json.Basic

/-!
# Filter trees

A filter is a leaf, which applies an operator to one member and an optional value, or a group of
filters of which all or any hold.
-/

namespace MetricLayer

/-- How the filters of a group are combined. -/
inductive Connective
  /-- All of them hold. -/
  | all
  /-- At least one of them holds. -/
  | any
deriving DecidableEq, Repr

namespace Connective

/-- The name of a connective, which is also its SQL keyword. -/
def name : Connective → String
  | .all => "and"
  | .any => "or"

/-- The connective with the given name. -/
def ofName? (name : String) : Option Connective :=
  [Connective.all, .any].find? (·.name = name)

end Connective

/-- The operator of a leaf. -/
inductive Operator
  | equals
  | notEquals
  | oneOf
  | notOneOf
  | greater
  | greaterOrEqual
  | less
  | lessOrEqual
  | set
  | notSet
  | contains
  | notContains
  | startsWith
  | notStartsWith
  | endsWith
  | notEndsWith
  | beforeDate
  | afterDate
  | inDateRange
  | notInDateRange
  | inQuery
  | notInQuery
deriving DecidableEq, Repr

namespace Operator

/-- Every operator, in declaration order. -/
def all : List Operator :=
  [.equals, .notEquals, .oneOf, .notOneOf, .greater, .greaterOrEqual, .less, .lessOrEqual, .set,
    .notSet, .contains, .notContains, .startsWith, .notStartsWith, .endsWith, .notEndsWith,
    .beforeDate, .afterDate, .inDateRange, .notInDateRange, .inQuery, .notInQuery]

/-- The name of an operator. -/
def name : Operator → String
  | .equals => "equals"
  | .notEquals => "notEquals"
  | .oneOf => "in"
  | .notOneOf => "notIn"
  | .greater => "gt"
  | .greaterOrEqual => "gte"
  | .less => "lt"
  | .lessOrEqual => "lte"
  | .set => "set"
  | .notSet => "notSet"
  | .contains => "contains"
  | .notContains => "notContains"
  | .startsWith => "startsWith"
  | .notStartsWith => "notStartsWith"
  | .endsWith => "endsWith"
  | .notEndsWith => "notEndsWith"
  | .beforeDate => "beforeDate"
  | .afterDate => "afterDate"
  | .inDateRange => "inDateRange"
  | .notInDateRange => "notInDateRange"
  | .inQuery => "inQuery"
  | .notInQuery => "notInQuery"

/-- The operator with the given name. -/
def ofName? (name : String) : Option Operator :=
  all.find? (·.name = name)

end Operator

/-- One operator applied to one member. -/
structure FilterLeaf where
  /-- The operator. -/
  operator : Operator
  /-- The path of the member. -/
  member : String
  /-- The value, where one is given. -/
  value : Option Json
deriving DecidableEq, Repr

/-- A filter tree. -/
inductive Filter
  | group (connective : Connective) (children : List Filter)
  | leaf (leaf : FilterLeaf)
deriving Repr

namespace Filter

mutual

/-- The leaves of a filter from left to right. -/
def leaves : Filter → List FilterLeaf
  | .leaf l => [l]
  | .group _ children => leavesAll children

/-- The leaves of several filters from left to right. -/
def leavesAll : List Filter → List FilterLeaf
  | [] => []
  | child :: rest => child.leaves ++ leavesAll rest

end

/-- The members that the leaves refer to, each at its first occurrence. -/
def members (f : Filter) : List String :=
  distinct (f.leaves.map (·.member))

mutual

/-- The filters that must all hold for a filter to hold: groups of which all filters hold are
taken apart, at any depth. -/
def conjuncts : Filter → List Filter
  | .group .all children => conjunctsAll children
  | .group .any children => [.group .any children]
  | .leaf l => [.leaf l]

/-- The conjuncts of several filters. -/
def conjunctsAll : List Filter → List Filter
  | [] => []
  | child :: rest => child.conjuncts ++ conjunctsAll rest

end

end Filter

end MetricLayer
