import MetricLayer.Filter.Payload
import MetricLayer.Member.Session
import MetricLayer.Segment.Basic

/-!
# Expanding a query

From a query to its segments: members are resolved, the filter is divided into conjuncts, metrics
are grouped by their model and by the models they read across a join that multiplies rows, and each
group gets a join tree and a place for every condition on dimensions.
-/

namespace MetricLayer

/-- Check the filter of a query. A group of conditions that must all hold may be empty at the top,
where it means that there is no condition. -/
def Filter.validateTop : Filter → Result Unit
  | .group .all children => Filter.validateAll children
  | .group .any children => (Filter.group .any children).validate
  | .leaf l => (Filter.leaf l).validate

/-- Check the filter of a query, where it has one. -/
def Query.validateFilter (query : Query) : Result Unit :=
  match query.filter with
  | some f => f.validateTop
  | none => .ok ()

namespace CompileScope

/-- The models that a member reads, its own first. -/
def modelsRead (scope : CompileScope) (member : Member) : Result (List String) := do
  return (← scope.evaluate member).models

/-- The models that several members read. -/
def allModelsRead (scope : CompileScope) (members : List Member) : Result (List String) := do
  return (← members.mapM scope.modelsRead).flatten

/-- Requested members of one kind, each once. -/
def requested (scope : CompileScope) (kind : MemberKind) (paths : List String) :
    Result (List Member) := do
  let members ← paths.mapM fun path =>
    match kind with
    | .dimension => scope.repository.dimension path
    | .metric => scope.repository.metric path
  return addAllNewBy Member.path [] members

/-- A conjunct with the members that it reads. One that reads a metric may read only requested
dimensions. -/
def conjunct (scope : CompileScope) (dimensions : List Member) (filter : Filter) :
    Result Conjunct := do
  let members ← filter.members.mapM scope.repository.member
  if members.any (·.isMetric) then
    let known := dimensions.map (·.path)
    match members.find? fun m => !m.isMetric && !known.contains m.path with
    | some m => throw (.invalidQuery (.filterDimension m.path))
    | none => return ⟨filter, members, .root⟩
  else return ⟨filter, members, .dimension⟩

/-- The models that a metric reads across a join that multiplies the rows of its own model,
sorted. -/
def fannedOut (scope : CompileScope) (metric : Member) : Result (List String) := do
  let owner := metric.model.name
  let others := (← scope.modelsRead metric).filter (· ≠ owner)
  let found ← others.filterM fun m => scope.repository.fansOut owner m
  return found.mergeSort (· ≤ ·)

end CompileScope

/-- Metrics that share a segment. -/
structure SegmentGroup where
  /-- The model that owns the metrics. -/
  anchor : String
  /-- The models that they read across a join that multiplies rows. -/
  fanned : List String
  /-- The metrics. -/
  metrics : List Member

/-- Add a metric to the group of its model and its fanned out models, or to a new group. -/
def addToGroup (metric : Member) (fanned : List String) : List SegmentGroup → List SegmentGroup
  | [] => [⟨metric.model.name, fanned, [metric]⟩]
  | g :: rest =>
    if g.anchor = metric.model.name ∧ g.fanned = fanned then
      { g with metrics := g.metrics ++ [metric] } :: rest
    else g :: addToGroup metric fanned rest

/-- The models that are reached from the anchor by inner joins alone. -/
def innerReached (anchor : String) (joins : List SegmentJoin) : List String :=
  joins.foldl (fun reached j =>
    if j.kind = .inner ∧ j.parent ∈ reached then reached ++ [j.child] else reached) [anchor]

namespace CompileScope

/-- The groups of the metrics. Without any metric there is one group for the model of the first
dimension. -/
def groups (scope : CompileScope) (dimensions metrics : List Member) :
    Result (List SegmentGroup) := do
  let fanned ← metrics.mapM fun m => do return (m, ← scope.fannedOut m)
  let groups := fanned.foldl (fun gs (m, f) => addToGroup m f gs) []
  match groups, dimensions with
  | [], first :: _ => return [⟨first.model.name, [], []⟩]
  | _, _ => return groups

/-- The place of a condition on dimensions: in the statement of a model where it reads that model
only and the model is reached by inner joins alone. -/
def placement (scope : CompileScope) (reached : List String) (c : Conjunct) : Result Placement := do
  match distinct (← scope.allModelsRead c.members) with
  | [only] => return if only ∈ reached then .model only else .segment
  | _ => return .segment

/-- The segment of a group. -/
def segment (scope : CompileScope) (label : String) (group : SegmentGroup)
    (dimensions : List Member) (conjuncts : List Conjunct) : Result Segment := do
  let inner := (conjuncts.zipIdx).filter fun (c, _) => c.level = .dimension
  let read ← scope.allModelsRead
    (group.metrics ++ dimensions ++ inner.flatMap fun (c, _) => c.members)
  let required := distinct (group.anchor :: read)
  let tree ← scope.repository.graph.joinTree required
  let joins ← (tree.orient group.anchor).mapM fun j => do
    let declared ← scope.repository.declared j
    return ({ j with kind := DeclaredKind.joinKind declared.kind } : SegmentJoin)
  let reached := innerReached group.anchor joins
  let filters ← inner.mapM fun (c, i) => do return ⟨i, ← scope.placement reached c⟩
  return {
    label := label
    anchor := group.anchor
    metrics := group.metrics
    required := required
    tree := tree
    joins := joins
    filters := filters }

/-- Take a query apart. -/
def expand (scope : CompileScope) (query : Query) : Result Expansion := do
  query.validateFilter
  let dimensions ← scope.requested .dimension query.dimensions
  let metrics ← scope.requested .metric query.metrics
  if dimensions.isEmpty && metrics.isEmpty then throw (.invalidQuery .nothingRequested)
  let filters := (query.filter.map Filter.conjuncts).getD []
  let conjuncts ← filters.mapM (scope.conjunct dimensions)
  let allMetrics := addAllNewBy Member.path metrics
    ((conjuncts.flatMap (·.members)).filter (·.isMetric))
  let groups ← scope.groups dimensions allMetrics
  let segments ← groups.zipIdx.mapM fun (g, i) =>
    scope.segment ("s" ++ Nat.repr i) g dimensions conjuncts
  return {
    dimensions := dimensions
    metrics := metrics
    hidden := allMetrics.drop metrics.length
    conjuncts := conjuncts
    segments := segments }

end CompileScope

end MetricLayer
