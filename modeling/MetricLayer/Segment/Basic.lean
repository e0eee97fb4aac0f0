import MetricLayer.Member.Level
import MetricLayer.Query.Basic
import MetricLayer.Segment.Orientation

/-!
# Segments

A query is computed in segments, each of which aggregates the metrics of one model over one join
tree. A metric that reads another model across a join that multiplies rows has a segment of its
own, apart from the plain metrics of its model. Conditions on dimensions are evaluated inside each
segment, conditions on metrics after aggregation.
-/

namespace MetricLayer

/-- Where a conjunct of the filter is evaluated. -/
inductive ConjunctLevel
  /-- It reads dimensions only: inside each segment. -/
  | dimension
  /-- It reads a metric: on the root statement. -/
  | root
deriving DecidableEq, Repr

/-- The name of a conjunct level. -/
def ConjunctLevel.name : ConjunctLevel → String
  | .dimension => "dimension"
  | .root => "root"

/-- A condition that every row of the result meets. -/
structure Conjunct where
  /-- The condition. -/
  filter : Filter
  /-- The members that it reads. -/
  members : List Member
  /-- Where it is evaluated. -/
  level : ConjunctLevel

/-- Where a condition on dimensions is evaluated within a segment. -/
inductive Placement
  /-- In the statement of a model. -/
  | model (name : String)
  /-- In the statement of the segment. -/
  | segment
deriving DecidableEq, Repr

/-- A conjunct with its place in a segment. -/
structure PlacedFilter where
  /-- The position of the conjunct. -/
  conjunct : Nat
  /-- Where it is evaluated. -/
  placement : Placement
deriving DecidableEq, Repr

/-- A join of a segment. -/
structure SegmentJoin extends OrientedJoin where
  /-- The kind of the join. -/
  kind : Sql.JoinKind
deriving DecidableEq, Repr

/-- A unit of aggregation. -/
structure Segment where
  /-- The name of the segment. -/
  label : String
  /-- The model whose rows are aggregated. -/
  anchor : String
  /-- The metrics that are computed here. -/
  metrics : List Member
  /-- The models that members and conditions read, the anchor first. -/
  required : List String
  /-- The joins that connect them. -/
  tree : JoinTree
  /-- The joins leading away from the anchor, breadth first. -/
  joins : List SegmentJoin
  /-- The conditions on dimensions with their places. -/
  filters : List PlacedFilter

/-- A query taken apart. -/
structure Expansion where
  /-- The requested dimensions, each once. -/
  dimensions : List Member
  /-- The requested metrics, each once. -/
  metrics : List Member
  /-- Metrics that only conditions read. -/
  hidden : List Member
  /-- The conjuncts of the filter. -/
  conjuncts : List Conjunct
  /-- The segments. -/
  segments : List Segment

namespace Expansion

/-- The segments of the root, and which of them projects each metric. -/
def rootLayout (e : Expansion) : RootLayout :=
  e.segments.foldl (fun layout s => s.metrics.foldl (fun l m => l.place m.label s.label) layout)
    (.ofSegments (e.segments.map (·.label)))

/-- Every model that some segment uses. -/
def models (e : Expansion) : List String :=
  distinct (e.segments.flatMap (·.tree.models))

/-- The models that are there only to connect others. -/
def joinModels (e : Expansion) : List String :=
  e.models.filter fun m => !e.segments.any fun s => s.required.contains m

/-- The requested member with the given path. -/
def requested? (e : Expansion) (path : String) : Option Member :=
  (e.dimensions ++ e.metrics).find? (·.path = path)

/-- Every member that the query names. -/
def members (e : Expansion) : List Member :=
  e.dimensions ++ e.metrics ++ e.conjuncts.flatMap (·.members)

end Expansion

end MetricLayer
