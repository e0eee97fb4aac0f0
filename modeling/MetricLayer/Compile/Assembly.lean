import MetricLayer.Filter.Predicate
import MetricLayer.Segment.Expand

/-!
# Assembling a statement

An expanded query becomes a statement of three levels: a statement for each model, which projects
the needed columns and evaluates the conditions pushed down to it; a statement for each segment,
which joins and aggregates; and the root, which merges the segments on the requested dimensions.
-/

namespace MetricLayer

open Sql (Fragment Statement Source JoinClause OrderItem)

namespace CompileScope

/-- The condition of a conjunct at a level. -/
def condition (scope : CompileScope) (predicates : PredicateScope) (level : Level)
    (c : Conjunct) : Result Fragment :=
  predicates.predicate (fun path => do
    scope.resolver.filterSql scope level (← scope.repository.member path)) c.filter

/-- The columns that several members read from the statements of models. -/
def projectionsOf (scope : CompileScope) (members : List Member) : Result (List Projection) := do
  return (← members.mapM fun m => do return (← scope.evaluate m).projections).flatten

/-- The source of a model's rows. -/
def modelSource (model : Model) : Source :=
  match model.source with
  | .table name => .table name (some model.name)
  | .subquery sql => .raw (.ofText sql) (some model.name)

/-- The statement of a model: its own projections, or its primary key where nothing is read from
it. -/
def modelStatement (scope : CompileScope) (projections : List Projection) (name : String)
    (conditions : List Fragment) : Result Statement := do
  let some model := scope.repository.model? name | throw (.unknownModel name)
  let own := projections.filter (·.model = name)
  let projected ← if own.isEmpty then do
      let some key := model.primaryKey? | throw (.invalidModel (.noPrimaryKey name))
      scope.projectionsOf [← scope.repository.member (joinPath [name, key.name])]
    else pure own
  return {
    label := some name
    select := projected.map (·.selectItem)
    source := some (modelSource model)
    filters := conditions }

/-- The conditions of a segment's conjuncts, and the projections that those evaluated in the
segment's own statement need. -/
structure SegmentConditions where
  /-- The projections that are needed so far. -/
  projections : List Projection
  /-- Conditions for the statements of models. -/
  pushed : List (String × Fragment)
  /-- Conditions for the statement of the segment. -/
  own : List Fragment

/-- Add the condition of one conjunct. -/
def addCondition (scope : CompileScope) (predicates : PredicateScope) (conjuncts : List Conjunct)
    (found : SegmentConditions) (placed : PlacedFilter) : Result SegmentConditions := do
  match conjuncts[placed.conjunct]? with
  | none => return found
  | some c =>
    match placed.placement with
    | .model name =>
      let condition ← scope.condition predicates .model c
      return { found with pushed := found.pushed ++ [(name, condition)] }
    | .segment =>
      let needed ← scope.projectionsOf c.members
      let condition ← scope.condition predicates .segment c
      return { found with
        projections := mergeProjections found.projections needed
        own := found.own ++ [condition] }

/-- The statement of a segment. -/
def segmentStatement (scope : CompileScope) (predicates : PredicateScope) (e : Expansion)
    (s : Segment) : Result Statement := do
  let members := e.dimensions ++ s.metrics
  let projected := mergeProjections [] (← scope.projectionsOf members)
  let found ← s.filters.foldlM (scope.addCondition predicates e.conjuncts) ⟨projected, [], []⟩
  let conditions ← s.joins.mapM fun j => do
    scope.resolver.joinCondition scope (← scope.repository.declared j.toOrientedJoin)
  let projections := mergeProjections found.projections (conditions.flatMap (·.2))
  let model (name : String) : Result Statement :=
    scope.modelStatement projections name
      ((found.pushed.filter (·.1 = name)).map (·.2))
  let anchor ← model s.anchor
  let joins ← (s.joins.zip conditions).mapM fun (j, c) => do
    return (⟨j.kind, .statement (← model j.child), some c.1⟩ : JoinClause)
  let select ← members.mapM fun m => scope.resolver.segmentItem scope m
  let groups ← e.dimensions.mapM fun m => scope.resolver.segmentGroup scope m
  return {
    label := some s.label
    select := select
    source := some (.statement anchor)
    joins := joins
    filters := found.own
    groupBy := groups.filterMap id }

/-- The condition on which a segment is merged with the segments before it: for each dimension, the
value so far equals the segment's value. -/
def mergeCondition (scope : CompileScope) (dimensions : List Member) (before : List String)
    (segment : String) : Fragment :=
  Fragment.join " and " (dimensions.map fun d =>
    coalesce (before.map fun s => scope.qualified s d.label) ++ .ofText " = " ++
      scope.qualified segment d.label)

/-- The joins of the root: each segment after the first is merged with those before it, or simply
put beside them where no dimension is requested. -/
def rootJoins (scope : CompileScope) (dimensions : List Member) :
    (before : List String) → List (String × Statement) → List JoinClause
  | _, [] => []
  | before, (name, s) :: rest =>
    let join : JoinClause :=
      if dimensions.isEmpty then ⟨.cross, .statement s, none⟩
      else ⟨.full, .statement s, some (scope.mergeCondition dimensions before name)⟩
    join :: scope.rootJoins dimensions (before ++ [name]) rest

/-- One entry of the ordering of the root. -/
def orderItem (scope : CompileScope) (e : Expansion) (entry : OrderEntry) : Result OrderItem :=
  match e.requested? entry.path with
  | some m => .ok ⟨.ofText (scope.quote m.label), entry.direction⟩
  | none => .error (.invalidQuery (.orderNotRequested entry.path))

/-- The root statement over the statements of the segments. -/
def rootStatement (scope : CompileScope) (predicates : PredicateScope) (e : Expansion)
    (segments : List Statement) (query : Query) : Result Statement := do
  let layout := e.rootLayout
  let select ← (e.dimensions ++ e.metrics).mapM fun m =>
    (Resolver.rootItem scope layout m : Result Sql.SelectItem)
  let filters ← (e.conjuncts.filter (·.level = .root)).mapM fun c =>
    scope.condition predicates (.root layout) c
  let order ← query.order.mapM (scope.orderItem e)
  let named := layout.segments.zip segments
  return {
    select := select
    source := segments.head?.map .statement
    joins := scope.rootJoins e.dimensions (layout.segments.take 1) (named.drop 1)
    filters := filters
    orderBy := order
    limit := query.limit
    offset := query.offset }

/-- The statement of a query, given how nested queries are compiled. -/
def assemble (scope : CompileScope) (nested : Query → Result Statement) (query : Query) :
    Result Statement := do
  let expansion ← scope.expand query
  let predicates : PredicateScope := ⟨scope.dialect, scope.now, nested⟩
  let segments ← expansion.segments.mapM (scope.segmentStatement predicates expansion)
  scope.rootStatement predicates expansion segments query

/-- The statement of a query whose filter values are nested at most `depth` deep. -/
def statementWithin (scope : CompileScope) : (depth : Nat) → Query → Result Statement
  | 0, query => scope.assemble (fun _ => .error (.invalidQuery .nestedUnavailable)) query
  | depth + 1, query => scope.assemble (scope.statementWithin depth) query

/-- The statement of a query. -/
def statement (scope : CompileScope) (query : Query) : Result Statement :=
  scope.statementWithin query.depth query

end CompileScope

end MetricLayer
