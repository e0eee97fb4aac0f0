import MetricLayer.Schema.Model
import MetricLayer.Text.Split

/-!
# Members

What a path of a repository names: a dimension, a temporal dimension at a granularity, a metric, or
a dimension under an aggregate.
-/

namespace MetricLayer

/-- A member of a model. -/
inductive Member
  | dimension (model : Model) (dimension : Dimension)
  /-- A temporal dimension seen at a granularity. -/
  | granularity (model : Model) (dimension : Dimension) (granularity : Granularity)
  | metric (model : Model) (metric : Metric)
  /-- A dimension aggregated without a declared metric. -/
  | aggregate (model : Model) (dimension : Dimension) (aggregate : Aggregate)

/-- Whether a member is aggregated. -/
inductive MemberKind
  | dimension
  | metric
deriving DecidableEq, Repr

/-- The name of a kind of members. -/
def MemberKind.name : MemberKind → String
  | .dimension => "dimension"
  | .metric => "metric"

/-- Names with points between them. -/
def joinPath (parts : List String) : String :=
  String.intercalate "." parts

/-- The column name that stands for a path: points become `___`. -/
def labelOf (path : String) : String :=
  Text.replaceChar '.' "___" path

namespace Member

/-- The model that owns a member. -/
def model : Member → Model
  | .dimension m _ | .granularity m _ _ | .metric m _ | .aggregate m _ _ => m

/-- The path of a member. -/
def path : Member → String
  | .dimension m d => joinPath [m.name, d.name]
  | .granularity m d g => joinPath [m.name, d.name, g.tag]
  | .metric m x => joinPath [m.name, x.name]
  | .aggregate m d a => joinPath [m.name, d.name, a.suffix]

/-- The column name of a member. -/
def label (m : Member) : String := labelOf m.path

/-- The kind of a member. -/
def kind : Member → MemberKind
  | .dimension .. | .granularity .. => .dimension
  | .metric .. | .aggregate .. => .metric

/-- Whether a member is aggregated. -/
def isMetric (m : Member) : Bool := m.kind = .metric

/-- The type of a member's values. -/
def type : Member → ValueType
  | .dimension _ d => d.type
  | .granularity _ _ g => g.resultType
  | .metric .. => .number
  | .aggregate _ d .min | .aggregate _ d .max => d.type
  | .aggregate _ _ _ => .number

/-- How a member's values are shown. -/
def format : Member → Option Format
  | .dimension _ d | .granularity _ d _ => d.format
  | .metric _ x => x.format
  | .aggregate .. => none

end Member

end MetricLayer
