import MetricLayer.Query.Json
import MetricLayer.Schema.Error

/-!
# Payloads of filters

Each operator wants a value of a certain shape. `FilterLeaf.check` turns the value of a leaf into
the payload that its operator works on, or says what is wrong with it.
-/

namespace MetricLayer

/-- The value of a leaf in the shape that an operator works on. -/
inductive Payload
  | none
  /-- Values to compare with. -/
  | values (values : List Json)
  /-- Texts to match. -/
  | strings (values : List String)
  /-- A single date expression. -/
  | date (text : String)
  /-- A date expression that stands for a range. -/
  | phrase (text : String)
  /-- The two ends of a range. -/
  | bounds (first last : String)
  /-- A nested query. -/
  | query (query : Query)
deriving Repr

/-- The shape of the value that an operator wants. -/
inductive PayloadShape
  | none
  | values
  | strings
  | date
  | range
  | query
deriving DecidableEq, Repr

/-- The shape of the value that an operator wants. -/
def Operator.shape : Operator → PayloadShape
  | .set | .notSet => .none
  | .equals | .notEquals | .oneOf | .notOneOf | .greater | .greaterOrEqual | .less
  | .lessOrEqual => .values
  | .contains | .notContains | .startsWith | .notStartsWith | .endsWith | .notEndsWith => .strings
  | .beforeDate | .afterDate => .date
  | .inDateRange | .notInDateRange => .range
  | .inQuery | .notInQuery => .query

/-- Whether a value can be compared with. -/
def Json.isScalar : Json → Bool
  | .string _ | .number _ | .bool _ => true
  | .null | .array _ | .object _ => false

namespace FilterLeaf

/-- The error of a leaf. -/
def invalid (leaf : FilterLeaf) (fault : FilterFault) : Error :=
  .invalidFilter leaf.operator.name leaf.member fault

/-- A scalar, or an array of scalars that is not empty. -/
def scalars (leaf : FilterLeaf) : Result (List Json) := do
  let values ← match leaf.value with
    | none | some .null => throw (leaf.invalid .missingValue)
    | some (.array items) => pure items
    | some value => pure [value]
  if values.isEmpty then throw (leaf.invalid .noValues)
  match values.find? fun v => !v.isScalar with
  | some bad => throw (leaf.invalid (.unsupportedValue bad))
  | none => pure values

/-- Strings, or the given error where one of the values is something else. -/
def allStrings (leaf : FilterLeaf) (fault : FilterFault) (values : List Json) :
    Result (List String) :=
  match values.mapM Json.text? with
  | some strings => .ok strings
  | none => .error (leaf.invalid fault)

/-- A date expression, or an array of them. -/
def dateStrings (leaf : FilterLeaf) : Result (List String) :=
  match leaf.value with
  | some (.string s) => .ok [s]
  | some (.array items) => leaf.allStrings .notDateStrings items
  | _ => .error (leaf.invalid .notDates)

/-- The payload of a leaf, where its value has the shape that its operator wants. -/
def check (leaf : FilterLeaf) : Result Payload :=
  match leaf.operator.shape with
  | .none => if leaf.value.isNone then .ok .none else .error (leaf.invalid .unwantedValue)
  | .values => return .values (← leaf.scalars)
  | .strings => do
    let values ← leaf.scalars
    return .strings (← leaf.allStrings .notStrings values)
  | .date => do
    match ← leaf.dateStrings with
    | [date] => return .date date
    | _ => throw (leaf.invalid .notOneDate)
  | .range => do
    match ← leaf.dateStrings with
    | [first, last] => return .bounds first last
    | [phrase] => return .phrase phrase
    | _ => throw (leaf.invalid .notRange)
  | .query =>
    match leaf.value with
    | none => .error (leaf.invalid .missingQuery)
    | some value =>
      match Query.decode? value with
      | some query => .ok (.query query)
      | none => .error (leaf.invalid .malformedQuery)

end FilterLeaf

namespace Filter

/-- The error of a group without filters. -/
def emptyGroup (connective : Connective) : Error :=
  .invalidFilter connective.name "" .emptyGroup

mutual

/-- Check every leaf from left to right; a group must not be empty. -/
def validate : Filter → Result Unit
  | .leaf l => l.check.map fun _ => ()
  | .group connective children =>
    if children.isEmpty then .error (emptyGroup connective) else validateAll children
termination_by structural f => f

/-- Check several filters from left to right. -/
def validateAll : List Filter → Result Unit
  | [] => .ok ()
  | child :: rest => do
    child.validate
    validateAll rest
termination_by structural fs => fs

end

end Filter

end MetricLayer
