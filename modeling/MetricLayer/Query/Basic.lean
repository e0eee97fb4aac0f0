import MetricLayer.Filter.Basic
import MetricLayer.Sql.Statement

/-!
# Queries

A query asks for dimensions and metrics by path, restricts them by a filter, and orders and pages
the result.
-/

namespace MetricLayer

/-- One entry of an ordering. -/
structure OrderEntry where
  /-- The path of the member. -/
  path : String
  /-- The direction. -/
  direction : Sql.SortDirection
deriving DecidableEq, Repr

/-- A query. -/
structure Query where
  /-- The paths of the requested dimensions. -/
  dimensions : List String := []
  /-- The paths of the requested metrics. -/
  metrics : List String := []
  /-- The condition on the result. -/
  filter : Option Filter := none
  /-- The ordering of the result. -/
  order : List OrderEntry := []
  /-- The greatest number of rows. -/
  limit : Option Nat := none
  /-- The number of rows that are skipped. -/
  offset : Option Nat := none
deriving Repr

namespace Query

/-- The greatest depth of the values that the leaves of the filter hold. It bounds how deeply
queries are nested inside these values. -/
def depth (q : Query) : Nat :=
  match q.filter with
  | none => 0
  | some f => f.leaves.foldr (fun leaf n => max ((leaf.value.map Json.depth).getD 0) n) 0

end Query

end MetricLayer
