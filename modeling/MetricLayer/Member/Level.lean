import MetricLayer.Member.Scope

/-!
# Members at the levels of a statement

A compiled statement has three levels. At the model level a dimension is an expression over the
source of its model. At the segment level a dimension reads the column that its model projects, and
a metric aggregates over such columns. At the root level every member reads the columns that the
segments project.

The functions here are written over a `Resolver`, which says how members are found and how their
definitions are evaluated, so they serve both an evaluation from scratch and one with a cache.
-/

namespace MetricLayer

open Sql (Fragment SelectItem)

/-- The evaluated definition of a member. -/
structure Compiled where
  /-- The expression of a dimension at the model level, of a metric at the segment level. -/
  sql : Fragment
  /-- The columns that it reads from the statements of models. -/
  projections : List Projection
  /-- The models whose statements it reads, its own first. -/
  models : List String
deriving DecidableEq, Repr

/-- How members are found and their definitions are evaluated. -/
structure Resolver (m : Type → Type) where
  /-- The member that a path names. -/
  find : String → m Member
  /-- The evaluated definition of a member. -/
  evaluate : Member → m Compiled

/-- Which segments the root reads, and which of them projects each metric. -/
structure RootLayout where
  /-- The names of the segments. -/
  segments : List String
  /-- The segment of each metric's column, the latest entry first. -/
  metrics : List (String × String)
deriving DecidableEq, Repr

namespace RootLayout

/-- A layout in which no metric has a segment yet. -/
def ofSegments (segments : List String) : RootLayout := ⟨segments, []⟩

/-- Note that a segment projects a metric. -/
def place (l : RootLayout) (label segment : String) : RootLayout :=
  { l with metrics := (label, segment) :: l.metrics }

/-- The segment that projects a metric. -/
def segmentOf? (l : RootLayout) (label : String) : Option String :=
  l.metrics.lookup label

end RootLayout

/-- A level of a compiled statement. -/
inductive Level
  | model
  | segment
  | root (layout : RootLayout)

namespace Resolver

variable {m : Type → Type} [Monad m] [MonadExcept Error m]

/-- A dimension that a definition refers to. -/
def dimensionReference (r : Resolver m) (scope : CompileScope) (owner : Member)
    (reference : String) : m Member := do
  let path := scope.qualify owner.model.name reference
  let found ← r.find path
  if found.isMetric then throw (.invalidReference (.metricForDimension owner.path path))
  return found

/-- The definition of a dimension at the model level: it reads columns and dimensions of its own
model. -/
def modelTemplate (r : Resolver m) (scope : CompileScope) (owner : Member) :
    Template → m Fragment
  | [] => return .empty
  | part :: rest => do
    let first ← match part with
      | .column name => pure (scope.qualified owner.model.name name)
      | .dimension reference => do
        let found ← r.dimensionReference scope owner reference
        if found.model.name ≠ owner.model.name then
          throw (.invalidReference (.foreignDimension owner.path
            (scope.qualify owner.model.name reference)))
        pure (← r.evaluate found).sql
      | .metric reference =>
        throw (.invalidReference (.metricInDimension owner.path reference))
      | part => pure (scope.literal part)
    return first ++ (← r.modelTemplate scope owner rest)

/-- The expression, projections and models that one part adds to the definition of a metric. A
column is projected under the name of the metric and read back from there. -/
def segmentPart (r : Resolver m) (scope : CompileScope) (owner : Member) (part : TemplatePart) :
    m Compiled := do
  match part with
  | .column name =>
    let label := owner.label ++ "___" ++ name
    return ⟨scope.qualified owner.model.name label,
      [⟨owner.model.name, label, scope.qualified owner.model.name name⟩], []⟩
  | .dimension reference =>
    let found ← r.dimensionReference scope owner reference
    let compiled ← r.evaluate found
    return { compiled with sql := scope.qualified found.model.name found.label }
  | .metric reference =>
    let path := scope.qualify owner.model.name reference
    let found ← r.find path
    if !found.isMetric then throw (.invalidReference (.dimensionForMetric owner.path path))
    let compiled ← r.evaluate found
    return { compiled with sql := compiled.sql.parenthesize }
  | part => return ⟨scope.literal part, [], []⟩

/-- The definition of a metric at the segment level, given what its earlier parts amount to. -/
def segmentTemplate (r : Resolver m) (scope : CompileScope) (owner : Member) :
    (found : Compiled) → Template → m Compiled
  | found, [] => return found
  | found, part :: rest => do
    let next ← r.segmentPart scope owner part
    r.segmentTemplate scope owner
      ⟨found.sql ++ next.sql, mergeProjections found.projections next.projections,
        addAllNew found.models next.models⟩ rest

/-- A dimension projects its own expression and reads its own model. -/
def ownProjection (member : Member) (sql : Fragment) : Compiled :=
  ⟨sql, [⟨member.model.name, member.label, sql⟩], [member.model.name]⟩

/-- Evaluate the definition of a member, its references being evaluated by the resolver. -/
def compile (r : Resolver m) (scope : CompileScope) (member : Member) : m Compiled := do
  match member with
  | .dimension model d =>
    let sql ← r.modelTemplate scope member (d.template ⟨model.name, scope.context⟩)
    return ownProjection member sql
  | .granularity model d g =>
    let parent ← r.find (Member.dimension model d).path
    let compiled ← r.evaluate parent
    return ownProjection member (scope.dialect.granularity g compiled.sql)
  | .metric model x =>
    r.segmentTemplate scope member ⟨.empty, [], [model.name]⟩
      (x.definition ⟨model.name, scope.context⟩)
  | .aggregate model d a =>
    let target ← r.find (Member.dimension model d).path
    let compiled ← r.evaluate target
    let column := scope.qualified target.model.name target.label
    return { compiled with sql := column.wrap a.opening ")" }

/-- The expression of a member at the segment level. -/
def segmentSql (r : Resolver m) (scope : CompileScope) (member : Member) : m Fragment := do
  if member.isMetric then return (← r.evaluate member).sql
  return scope.qualified member.model.name member.label

/-- The member as a selected expression of a segment. -/
def segmentItem (r : Resolver m) (scope : CompileScope) (member : Member) : m SelectItem := do
  return ⟨← r.segmentSql scope member, some member.label⟩

/-- What a segment groups by for a member: nothing for a metric. -/
def segmentGroup (r : Resolver m) (scope : CompileScope) (member : Member) :
    m (Option Fragment) := do
  if member.isMetric then return none
  return some (← r.segmentSql scope member)

/-- The expression of a member at the root level: a metric is read from its segment, a dimension
from the first segment that has a value for it. -/
def rootSql (scope : CompileScope) (layout : RootLayout) (member : Member) : m Fragment := do
  if member.isMetric then
    match layout.segmentOf? member.label with
    | some segment => return scope.qualified segment member.label
    | none => throw (.invalidQuery (.metricNotComputed member.path))
  return coalesce (layout.segments.map fun s => scope.qualified s member.label)

/-- The member as a selected expression of the root. -/
def rootItem (scope : CompileScope) (layout : RootLayout) (member : Member) : m SelectItem := do
  return ⟨← rootSql scope layout member, some member.label⟩

/-- The expression of a member in a filter at the given level. -/
def filterSql (r : Resolver m) (scope : CompileScope) (level : Level) (member : Member) :
    m Fragment :=
  match level with
  | .model =>
    if member.isMetric then throw (.invalidQuery (.metricBeforeAggregation member.path))
    else return (← r.evaluate member).sql
  | .segment => r.segmentSql scope member
  | .root layout => rootSql scope layout member

/-- One part of a join condition with the projections that it needs. -/
def conditionPart (r : Resolver m) (scope : CompileScope) (join : Join) (part : TemplatePart) :
    m (Fragment × List Projection) := do
  match part with
  | .dimension path =>
    let found ← r.find path
    if found.isMetric then
      throw (.invalidReference (.metricInJoin join.origin join.target path))
    if found.model.name ≠ join.origin ∧ found.model.name ≠ join.target then
      throw (.invalidReference (.outsideJoin join.origin join.target path))
    let compiled ← r.evaluate found
    return (scope.qualified found.model.name found.label, compiled.projections)
  | .column name => throw (.invalidReference (.columnInJoin join.origin join.target name))
  | .metric path => throw (.invalidReference (.metricInJoin join.origin join.target path))
  | part => return (scope.literal part, [])

/-- A join condition at the segment level, given what its earlier parts amount to. -/
def conditionParts (r : Resolver m) (scope : CompileScope) (join : Join) :
    (found : Fragment × List Projection) → Template → m (Fragment × List Projection)
  | found, [] => return found
  | found, part :: rest => do
    let next ← r.conditionPart scope join part
    r.conditionParts scope join (found.1 ++ next.1, mergeProjections found.2 next.2) rest

/-- A join condition at the segment level and the projections that it needs. -/
def joinCondition (r : Resolver m) (scope : CompileScope) (join : Join) :
    m (Fragment × List Projection) :=
  r.conditionParts scope join (.empty, []) (join.template scope.context)

end Resolver

end MetricLayer
