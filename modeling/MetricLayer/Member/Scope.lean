import MetricLayer.Calendar.DateTime
import MetricLayer.Repository.Basic

/-!
# Compile scopes

The fixed inputs of one compile, and the pieces of SQL that depend on nothing else.
-/

namespace MetricLayer

open Sql (Fragment Dialect SelectItem)

/-- The fixed inputs of one compile. -/
structure CompileScope where
  /-- The declared models and joins. -/
  repository : Repository
  /-- The dialect of the result. -/
  dialect : Dialect
  /-- The value that definitions may depend on. -/
  context : Json
  /-- The reference time of date phrases. -/
  now : Calendar.DateTime

/-- A column that the statement of a model has to project. -/
structure Projection where
  /-- The model. -/
  model : String
  /-- The name of the column. -/
  label : String
  /-- The expression over the source of the model. -/
  sql : Fragment
deriving DecidableEq, Repr

/-- What makes a projection distinct from others: its model and the name of its column. -/
def Projection.key (p : Projection) : String × String := (p.model, p.label)

/-- The projection as a selected expression. -/
def Projection.selectItem (p : Projection) : SelectItem := ⟨p.sql, some p.label⟩

/-- Add projections, leaving out those that are already there. -/
def mergeProjections (found projections : List Projection) : List Projection :=
  addAllNewBy Projection.key found projections

/-- The first of several values that is not null; a single value stands alone. -/
def coalesce (values : List Fragment) : Fragment :=
  match values with
  | [value] => value
  | _ => (Fragment.join ", " values).wrap "coalesce(" ")"

namespace CompileScope

/-- An identifier in the quotes of the dialect. -/
def quote (scope : CompileScope) (identifier : String) : String :=
  scope.dialect.quote identifier

/-- A column of a named source. -/
def qualified (scope : CompileScope) (source column : String) : Fragment :=
  .ofColumn source column (scope.dialect.quotePath [source, column])

/-- The path that a reference in a definition of the given model means. It is a path already where
its first part names a model. -/
def qualify (scope : CompileScope) (model reference : String) : String :=
  match Text.split '.' reference with
  | first :: _ :: _ =>
    if (scope.repository.model? first).isSome then reference else joinPath [model, reference]
  | _ => joinPath [model, reference]

/-- A part of a template that does not refer to a column or a member. -/
def literal (scope : CompileScope) : TemplatePart → Fragment
  | .sql text => .ofText text
  | .value value => .ofValue value
  | .identifier name => .ofText (scope.quote name)
  | .column _ | .dimension _ | .metric _ => .empty

end CompileScope

end MetricLayer
