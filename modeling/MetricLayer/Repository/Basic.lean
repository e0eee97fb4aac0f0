import MetricLayer.JoinGraph.JoinTree
import MetricLayer.Repository.Member
import MetricLayer.Schema.Error
import MetricLayer.Schema.Join

/-!
# Repositories

A repository holds declared models and joins that have passed validation: names are not empty,
have no points and are unique, every model has one primary key, and joins lead between two
different declared models, at most one between any two. It resolves the paths of members.
-/

namespace MetricLayer

/-- Validated models and joins. -/
structure Repository where
  /-- The models, in declaration order. -/
  models : List Model
  /-- The joins, in declaration order. -/
  joins : List Join

/-- Whether a name may not be used in a path. -/
def badName (name : String) : Bool :=
  name.isEmpty || name.toList.contains '.'

namespace Repository

/-- Check the names of members one after the other. -/
def checkNames (model : String) : (seen names : List String) → Result Unit
  | _, [] => .ok ()
  | seen, name :: rest =>
    if badName name then .error (.invalidModel (.memberName name model))
    else if name ∈ seen then .error (.invalidModel (.repeatedMember name model))
    else checkNames model (seen ++ [name]) rest

/-- Check one model on its own. -/
def checkModel (m : Model) : Result Unit := do
  if badName m.name then throw (.invalidModel (.modelName m.name))
  checkNames m.name [] m.memberNames
  let keys := m.dimensions.countP (·.primaryKey)
  if keys ≠ 1 then throw (.invalidModel (.primaryKeys m.name keys))

/-- Check the models one after the other. -/
def checkModels : (seen : List String) → List Model → Result Unit
  | _, [] => .ok ()
  | seen, m :: rest => do
    checkModel m
    if m.name ∈ seen then throw (.invalidModel (.repeatedModel m.name))
    checkModels (seen ++ [m.name]) rest

/-- Check the joins one after the other, given the pairs of models that are already joined. -/
def checkJoins (models : List String) : (seen : List (String × String)) → List Join → Result Unit
  | _, [] => .ok ()
  | seen, j :: rest => do
    if j.origin ∉ models then throw (.unknownModel j.origin)
    if j.target ∉ models then throw (.unknownModel j.target)
    if j.origin = j.target then throw (.invalidModel (.selfJoin j.origin))
    if (j.origin, j.target) ∈ seen ∨ (j.target, j.origin) ∈ seen then
      throw (.duplicateJoin j.origin j.target)
    checkJoins models (seen ++ [(j.origin, j.target)]) rest

/-- The repository of the given models and joins. -/
def build (models : List Model) (joins : List Join) : Result Repository := do
  checkModels [] models
  checkJoins (models.map (·.name)) [] joins
  return ⟨models, joins⟩

/-- The model with the given name. -/
def model? (r : Repository) (name : String) : Option Model :=
  r.models.find? (·.name = name)

/-- The join at the given position. -/
def join? (r : Repository) (index : Nat) : Option Join :=
  r.joins[index]?

/-- The graph of the joins over the models. -/
def graph (r : Repository) : JoinGraph :=
  .build (r.models.map (·.name)) r.joins

/-- A member of a model under a name of its own. -/
def plainMember (path : String) (m : Model) (name : String) : Result Member :=
  match m.dimension? name, m.metric? name with
  | some d, _ => .ok (.dimension m d)
  | none, some x => .ok (.metric m x)
  | none, none => .error (.memberNotFound path (.noMember m.name name))

/-- A member derived from a dimension of a model. -/
def derivedMember (path : String) (m : Model) (name suffix : String) : Result Member := do
  let some d := m.dimension? name | throw (.memberNotFound path (.noDimension m.name name))
  if Aggregate.suffixMark.toList.isPrefixOf suffix.toList then
    let some a := Aggregate.ofSuffix? suffix
      | throw (.memberNotFound path (.unknownAggregate suffix))
    return .aggregate m d a
  else
    let g ← Granularity.parse suffix
    if g.appliesTo d.type then return .granularity m d g
    else throw (.memberNotFound path (.granularityUnavailable g d.type d.name))

/-- The member that a path names: `model.member`, `model.dimension.granularity` or
`model.dimension.adhoc_aggregate`. -/
def member (r : Repository) (path : String) : Result Member :=
  let parts := Text.split '.' path
  if parts.any (·.isEmpty) then .error (.memberNotFound path .malformed)
  else
    let model (name : String) : Result Model :=
      match r.model? name with
      | some m => .ok m
      | none => .error (.memberNotFound path (.unknownModel name))
    match parts with
    | [modelName, name] => do plainMember path (← model modelName) name
    | [modelName, name, suffix] => do derivedMember path (← model modelName) name suffix
    | _ => .error (.memberNotFound path .malformed)

/-- The dimension that a path names. -/
def dimension (r : Repository) (path : String) : Result Member := do
  let m ← r.member path
  if m.isMetric then throw (.memberNotFound path .notDimension)
  return m

/-- The metric that a path names. -/
def metric (r : Repository) (path : String) : Result Member := do
  let m ← r.member path
  if m.isMetric then return m
  throw (.memberNotFound path .notMetric)

/-- The paths of a dimension: its own, and those of the granularities that apply to it. -/
def dimensionPaths (m : Model) (d : Dimension) : List String :=
  (Member.dimension m d).path ::
    (Granularity.all.filter (·.appliesTo d.type)).map fun g => (Member.granularity m d g).path

/-- The paths of a model's members, those under an aggregate left out. -/
def modelPaths (m : Model) : List String :=
  m.dimensions.flatMap (dimensionPaths m) ++ m.metrics.map fun x => (Member.metric m x).path

/-- The paths of all declared members and of all granularities of temporal dimensions. -/
def memberPaths (r : Repository) : List String :=
  r.models.flatMap modelPaths

/-- The members that stand on a dimension: itself, and itself at each granularity and under each
aggregate. -/
def dimensionMembers (m : Model) (d : Dimension) : List Member :=
  .dimension m d :: (Granularity.all.map (.granularity m d) ++ Aggregate.all.map (.aggregate m d))

/-- The members of a model. -/
def modelMembers (m : Model) : List Member :=
  m.dimensions.flatMap (dimensionMembers m) ++ m.metrics.map (.metric m)

/-- The number of members that can be named, at most. -/
def memberCount (r : Repository) : Nat :=
  (r.models.flatMap modelMembers).length

end Repository

end MetricLayer
