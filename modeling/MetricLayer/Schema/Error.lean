import MetricLayer.Json.Writer
import MetricLayer.Schema.Granularity

/-!
# Causes of failure

Everything that can go wrong between declaring a schema and compiling a query, and the one place
where each cause is put into words.
-/

namespace MetricLayer

/-- Why a path names no member of the wanted kind. -/
inductive PathFault
  /-- The path has too few or too many parts, or an empty one. -/
  | malformed
  | unknownModel (model : String)
  | noMember (model name : String)
  | noDimension (model name : String)
  | unknownAggregate (suffix : String)
  | granularityUnavailable (granularity : Granularity) (type : ValueType) (dimension : String)
  | notDimension
  | notMetric
deriving DecidableEq, Repr

/-- Why a set of declarations is no schema. -/
inductive SchemaFault
  | modelName (name : String)
  | memberName (name model : String)
  | repeatedMember (name model : String)
  | primaryKeys (model : String) (count : Nat)
  | repeatedModel (name : String)
  | selfJoin (model : String)
  | noPrimaryKey (model : String)
deriving DecidableEq, Repr

/-- Why a template refers to something it may not. -/
inductive ReferenceFault
  /-- A metric stands where a dimension is expected. -/
  | metricForDimension (path reference : String)
  /-- A dimension stands where a metric is expected. -/
  | dimensionForMetric (path reference : String)
  /-- A dimension refers to a dimension of another model. -/
  | foreignDimension (path reference : String)
  /-- A dimension refers to a metric. -/
  | metricInDimension (path reference : String)
  | metricInJoin (origin target reference : String)
  | outsideJoin (origin target reference : String)
  | columnInJoin (origin target column : String)
deriving DecidableEq, Repr

/-- Why a filter is not valid. -/
inductive FilterFault
  | unwantedValue
  | missingValue
  | noValues
  | unsupportedValue (value : Json)
  | notStrings
  | notDates
  | notDateStrings
  | notOneDate
  | notRange
  | missingQuery
  | malformedQuery
  | emptyGroup
  | notComparison
  | notPattern
  | notDateComparison
  | nestedWidth
deriving DecidableEq, Repr

/-- Why a query cannot be compiled. -/
inductive QueryFault
  | nothingRequested
  /-- A filter on metrics also reads a dimension that was not requested. -/
  | filterDimension (path : String)
  | orderNotRequested (path : String)
  | metricNotComputed (path : String)
  | metricBeforeAggregation (path : String)
  /-- Nested queries cannot be compiled here. -/
  | nestedUnavailable
deriving DecidableEq, Repr

/-- A cause of failure. -/
inductive Error
  | memberNotFound (path : String) (fault : PathFault)
  | unknownModel (name : String)
  | invalidModel (fault : SchemaFault)
  | duplicateJoin (origin target : String)
  | noPath (origin target : String)
  | brokenPath (origin target : String)
  | unknownGranularity (tag : String)
  | invalidReference (fault : ReferenceFault)
  /-- Definitions refer to each other in a circle: the members on it, the first one repeated. -/
  | cyclicReference (members : List String)
  | invalidFilter (operator member : String) (fault : FilterFault)
  | unparseableDate (text : String)
  | invalidQuery (fault : QueryFault)
deriving DecidableEq, Repr

/-- A text in single quotes. -/
def inQuotes (s : String) : String := "'" ++ s ++ "'"

/-- The words for a path that names no member. -/
def PathFault.message : PathFault → String
  | .malformed => "expected '<model>.<member>'"
  | .unknownModel model => "unknown model " ++ inQuotes model
  | .noMember model name => "model " ++ inQuotes model ++ " has no member " ++ inQuotes name
  | .noDimension model name => "model " ++ inQuotes model ++ " has no dimension " ++ inQuotes name
  | .unknownAggregate suffix => "unknown ad-hoc aggregate " ++ inQuotes suffix
  | .granularityUnavailable g type dimension =>
    "granularity " ++ inQuotes g.tag ++ " is not available on " ++ type.name ++ " dimension " ++
      inQuotes dimension
  | .notDimension => "not a dimension"
  | .notMetric => "not a metric"

/-- The words for declarations that are no schema. -/
def SchemaFault.message : SchemaFault → String
  | .modelName name => "invalid model name " ++ inQuotes name
  | .memberName name model =>
    "invalid member name " ++ inQuotes name ++ " on model " ++ inQuotes model
  | .repeatedMember name model =>
    "member " ++ inQuotes name ++ " is declared more than once on model " ++ inQuotes model
  | .primaryKeys model count =>
    "model " ++ inQuotes model ++ " must declare exactly one primary key dimension, found " ++
      Nat.repr count
  | .repeatedModel name => "model " ++ inQuotes name ++ " is declared more than once"
  | .selfJoin model => "join from " ++ inQuotes model ++ " to itself"
  | .noPrimaryKey model => "model " ++ inQuotes model ++ " has no primary key"

/-- The words for a wrong reference. -/
def ReferenceFault.message : ReferenceFault → String
  | .metricForDimension path reference =>
    inQuotes path ++ " references metric " ++ inQuotes reference ++ " where a dimension is expected"
  | .dimensionForMetric path reference =>
    inQuotes path ++ " references dimension " ++ inQuotes reference ++ " where a metric is expected"
  | .foreignDimension path reference =>
    "dimension " ++ inQuotes path ++ " references " ++ inQuotes reference ++ " on another model"
  | .metricInDimension path reference =>
    "dimension " ++ inQuotes path ++ " cannot reference metric " ++ inQuotes reference
  | .metricInJoin origin target reference =>
    "join " ++ origin ++ " -> " ++ target ++ " references metric " ++ inQuotes reference
  | .outsideJoin origin target reference =>
    "join " ++ origin ++ " -> " ++ target ++ " references " ++ inQuotes reference ++
      " outside the joined models"
  | .columnInJoin origin target column =>
    "join " ++ origin ++ " -> " ++ target ++ " references column " ++ inQuotes column ++
      "; reference a dimension instead"

/-- The words for an invalid filter. -/
def FilterFault.message : FilterFault → String
  | .unwantedValue => "operator takes no value"
  | .missingValue => "missing value"
  | .noValues => "expected at least one value"
  | .unsupportedValue value => "unsupported value " ++ value.compact
  | .notStrings => "expected string values"
  | .notDates => "expected a date string or array of date strings"
  | .notDateStrings => "expected date strings"
  | .notOneDate => "expected a single date"
  | .notRange => "expected a date phrase or [start, end]"
  | .missingQuery => "expected a nested query"
  | .malformedQuery => "invalid nested query"
  | .emptyGroup => "filter group has no children"
  | .notComparison => "not a comparison"
  | .notPattern => "not a pattern match"
  | .notDateComparison => "not a date comparison"
  | .nestedWidth => "nested query must project exactly one member"

/-- The words for a query that cannot be compiled. -/
def QueryFault.message : QueryFault → String
  | .nothingRequested => "query requests no dimensions or metrics"
  | .filterDimension path =>
    "filter combining metrics with dimension " ++ inQuotes path ++
      " requires that dimension to be requested"
  | .orderNotRequested path =>
    "cannot order by " ++ inQuotes path ++ ": it is not a requested dimension or metric"
  | .metricNotComputed path => "metric " ++ inQuotes path ++ " is not computed by any segment"
  | .metricBeforeAggregation path =>
    "metric " ++ inQuotes path ++ " cannot be filtered before aggregation"
  | .nestedUnavailable => "subqueries are not available"

/-- The words for a cause of failure. -/
def Error.message : Error → String
  | .memberNotFound path fault => "Member " ++ inQuotes path ++ " not found: " ++ fault.message
  | .unknownModel name => "Unknown model: " ++ inQuotes name
  | .invalidModel fault => "Invalid model: " ++ fault.message
  | .duplicateJoin origin target =>
    "Duplicate join between " ++ inQuotes origin ++ " and " ++ inQuotes target
  | .noPath origin target => "No join path from " ++ inQuotes origin ++ " to " ++ inQuotes target
  | .brokenPath origin target =>
    "Join path reconstruction failed between " ++ inQuotes origin ++ " and " ++ inQuotes target
  | .unknownGranularity tag => "Unknown granularity: " ++ inQuotes tag
  | .invalidReference fault => "Invalid reference: " ++ fault.message
  | .cyclicReference members =>
    "Cyclic reference detected: " ++ String.intercalate " -> " members
  | .invalidFilter operator member fault =>
    "Invalid " ++ inQuotes operator ++ " filter on " ++ inQuotes member ++ ": " ++ fault.message
  | .unparseableDate text => "Unparseable date: " ++ inQuotes text
  | .invalidQuery fault => "Invalid query: " ++ fault.message

/-- The result of an operation that may fail. -/
abbrev Result := Except Error

/-- The granularity with the given tag. -/
def Granularity.parse (tag : String) : Result Granularity :=
  match ofTag? tag with
  | some g => .ok g
  | none => .error (.unknownGranularity tag)

end MetricLayer
