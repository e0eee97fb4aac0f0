import MetricLayer.Calendar.Phrase
import MetricLayer.Filter.Payload

/-!
# Filters as SQL predicates

A filter becomes a predicate over the expressions of its members, which the caller supplies, so
the same filter can be applied at every level of a compiled statement. All values are bound.
-/

namespace MetricLayer

open Sql (Fragment Dialect Statement PatternMatch)

/-- What the predicate of a leaf depends on apart from the expression of its member. -/
structure PredicateScope where
  /-- The dialect. -/
  dialect : Dialect
  /-- The reference time of date phrases. -/
  now : Calendar.DateTime
  /-- The statement of a nested query. -/
  nested : Query → Result Statement

/-- The pattern that an operator matches. -/
def Operator.pattern? : Operator → Option PatternMatch
  | .contains => some .contains
  | .notContains => some PatternMatch.contains.negate
  | .startsWith => some .startsWith
  | .notStartsWith => some PatternMatch.startsWith.negate
  | .endsWith => some .endsWith
  | .notEndsWith => some PatternMatch.endsWith.negate
  | _ => none

/-- The symbol of an operator that compares. -/
def Operator.comparison? : Operator → Option String
  | .greater => some ">"
  | .greaterOrEqual => some ">="
  | .less => some "<"
  | .lessOrEqual => some "<="
  | _ => none

namespace Predicate

/-- An expression compared with a bound value. -/
def compare (expr : Fragment) (symbol : String) (value : Json) : Fragment :=
  expr.wrap "" (" " ++ symbol ++ " ") ++ .ofValue value

/-- An expression equal to the only value, or to one of several values. -/
def membership (negated : Bool) (expr : Fragment) (values : List Json) : Fragment :=
  match values with
  | [value] => compare expr (if negated then "<>" else "=") value
  | _ =>
    expr.wrap "" (if negated then " not in " else " in ") ++
      (Fragment.join ", " (values.map .ofValue)).parenthesize

/-- A single part as it is, any other number of parts in parentheses. -/
def combine (separator : String) (parts : List Fragment) : Fragment :=
  match parts with
  | [part] => part
  | _ => (Fragment.join separator parts).parenthesize

/-- An expression between the ends of a range. -/
def between (negated : Bool) (expr : Fragment) (range : Calendar.DateRange) : Fragment :=
  expr.wrap "" (if negated then " not between " else " between ") ++
    .ofValue (.string range.first.text) ++ .ofText " and " ++ .ofValue (.string range.last.text)

/-- An expression that is a result of a nested statement. The columns of the nested statement are
its own. -/
def nested (negated : Bool) (expr : Fragment) (rows : Fragment) : Fragment :=
  expr.wrap "" (if negated then " not in " else " in ") ++ rows.sealed.parenthesize

end Predicate

namespace PredicateScope

/-- The predicate of an operator with a payload on the given expression. -/
def leaf (scope : PredicateScope) (operator : Operator) (member : String) (payload : Payload)
    (expr : Fragment) : Result Fragment :=
  let invalid (fault : FilterFault) : Error := .invalidFilter operator.name member fault
  match payload with
  | .none =>
    match operator with
    | .set => .ok (expr.wrap "" " is not null")
    | .notSet => .ok (expr.wrap "" " is null")
    | _ => .error (invalid .missingValue)
  | .values values =>
    match operator with
    | .equals | .oneOf => .ok (Predicate.membership false expr values)
    | .notEquals | .notOneOf => .ok (Predicate.membership true expr values)
    | _ =>
      match operator.comparison? with
      | some symbol => .ok (Predicate.combine " and " (values.map (Predicate.compare expr symbol)))
      | none => .error (invalid .notComparison)
  | .strings strings =>
    match operator.pattern? with
    | some pattern =>
      .ok (Predicate.combine (if pattern.negated then " and " else " or ")
        (strings.map fun s => scope.dialect.patternMatch expr pattern (.string s)))
    | none => .error (invalid .notPattern)
  | .date text => do
    let range ← Calendar.parseDate text scope.now
    match operator with
    | .beforeDate => return Predicate.compare expr "<" (.string range.first.text)
    | .afterDate => return Predicate.compare expr ">" (.string range.last.text)
    | _ => throw (invalid .notDateComparison)
  | .phrase text => do
    let range ← Calendar.parseDate text scope.now
    return Predicate.between (operator = .notInDateRange) expr range
  | .bounds first last => do
    let range ← Calendar.parseBounds first last scope.now
    return Predicate.between (operator = .notInDateRange) expr range
  | .query query => do
    let statement ← scope.nested query
    if statement.select.length ≠ 1 then throw (invalid .nestedWidth)
    return Predicate.nested (operator = .notInQuery) expr
      (statement.render scope.dialect .compact)

/-- The predicate of a group, given the predicates of its filters. -/
def group (connective : Connective) (parts : List Fragment) : Result Fragment :=
  match parts with
  | [] => .error (Filter.emptyGroup connective)
  | [part] => .ok part
  | _ => .ok (Fragment.join (" " ++ connective.name ++ " ") parts).parenthesize

mutual

/-- The predicate of a filter. The expression of each member is looked up once its leaf has been
checked. -/
def predicate (scope : PredicateScope) (member : String → Result Fragment) :
    Filter → Result Fragment
  | .leaf l => do
    let payload ← l.check
    let expr ← member l.member
    scope.leaf l.operator l.member payload expr
  | .group connective children => do
    group connective (← predicates scope member children)
termination_by structural f => f

/-- The predicates of several filters. -/
def predicates (scope : PredicateScope) (member : String → Result Fragment) :
    List Filter → Result (List Fragment)
  | [] => .ok []
  | child :: rest => do
    let first ← predicate scope member child
    let others ← predicates scope member rest
    return first :: others
termination_by structural fs => fs

end

end PredicateScope

end MetricLayer
