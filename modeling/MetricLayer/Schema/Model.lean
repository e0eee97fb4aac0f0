import MetricLayer.Schema.Aggregate
import MetricLayer.Schema.Format
import MetricLayer.Schema.Granularity
import MetricLayer.Schema.Template

/-!
# Models

A model names a table or a subquery and declares the dimensions and metrics that queries may ask
for.
-/

namespace MetricLayer

/-- An attribute of a model that is not aggregated. -/
structure Dimension where
  /-- The name within its model. -/
  name : String
  /-- The type of its values. -/
  type : ValueType := .string
  /-- Whether it identifies the rows of the model. -/
  primaryKey : Bool := false
  /-- How its values are shown. -/
  format : Option Format := none
  /-- Its definition, where it is not the column of the same name. -/
  definition : Option (MemberScope → Template) := none

/-- The template of a dimension in the given scope. -/
def Dimension.template (d : Dimension) (scope : MemberScope) : Template :=
  match d.definition with
  | some f => f scope
  | none => [.column d.name]

/-- An aggregated expression of a model. -/
structure Metric where
  /-- The name within its model. -/
  name : String
  /-- How its values are shown. -/
  format : Option Format := none
  /-- Its definition. -/
  definition : MemberScope → Template

/-- What a model reads from. -/
inductive ModelSource
  /-- A table, its name optionally qualified by points. -/
  | table (name : String)
  /-- The text of a subquery. -/
  | subquery (sql : String)
deriving DecidableEq, Repr

/-- A named unit of data with its dimensions and metrics. -/
structure Model where
  /-- The name of the model. -/
  name : String
  /-- What it reads from. -/
  source : ModelSource
  /-- Its dimensions, in declaration order. -/
  dimensions : List Dimension := []
  /-- Its metrics, in declaration order. -/
  metrics : List Metric := []

namespace Model

/-- The dimension with the given name. -/
def dimension? (m : Model) (name : String) : Option Dimension :=
  m.dimensions.find? (·.name = name)

/-- The metric with the given name. -/
def metric? (m : Model) (name : String) : Option Metric :=
  m.metrics.find? (·.name = name)

/-- The dimension that identifies the rows of the model. -/
def primaryKey? (m : Model) : Option Dimension :=
  m.dimensions.find? (·.primaryKey)

/-- The names of all members, dimensions first. -/
def memberNames (m : Model) : List String :=
  m.dimensions.map (·.name) ++ m.metrics.map (·.name)

end Model

end MetricLayer
