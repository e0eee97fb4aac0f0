import MetricLayer.Schema.Template
import MetricLayer.Sql.Statement

/-!
# Joins

A join declares how two models are related and at what cost the join tree may use the relation.
-/

namespace MetricLayer

/-- How many rows of each side belong together. -/
inductive Cardinality
  | oneToOne
  | oneToMany
  | manyToOne
  | manyToMany
deriving DecidableEq, Repr

namespace Cardinality

/-- The same relation seen from the other side. -/
def reverse : Cardinality → Cardinality
  | .oneToOne => .oneToOne
  | .oneToMany => .manyToOne
  | .manyToOne => .oneToMany
  | .manyToMany => .manyToMany

/-- Whether a row may meet several rows of the other side. -/
def fansOut : Cardinality → Bool
  | .oneToMany | .manyToMany => true
  | .oneToOne | .manyToOne => false

/-- The short form of a cardinality. -/
def text : Cardinality → String
  | .oneToOne => "1:1"
  | .oneToMany => "1:N"
  | .manyToOne => "N:1"
  | .manyToMany => "N:N"

/-- The cardinality with the given name. -/
def ofName? (name : String) : Option Cardinality :=
  if name = "oneToOne" then some .oneToOne
  else if name = "oneToMany" then some .oneToMany
  else if name = "manyToOne" then some .manyToOne
  else if name = "manyToMany" then some .manyToMany
  else none

/-- The cost of crossing the join before its priority is taken into account. -/
def cost : Cardinality → Nat
  | .oneToOne => 1
  | .manyToOne => 2
  | .oneToMany => 3
  | .manyToMany => 4

end Cardinality

/-- How strongly a join is preferred. -/
inductive Priority
  | low
  | normal
  | high
deriving DecidableEq, Repr

namespace Priority

/-- The factor by which a priority raises the cost of a join. -/
def factor : Priority → Nat
  | .high => 1
  | .normal => 10
  | .low => 100

/-- The priority with the given name. -/
def ofName? (name : String) : Option Priority :=
  if name = "low" then some .low
  else if name = "normal" then some .normal
  else if name = "high" then some .high
  else none

end Priority

/-- The weight of a join of the given priority and cardinality. -/
def joinWeight (priority : Priority) (cardinality : Cardinality) : Nat :=
  cardinality.cost * priority.factor

/-- A kind of join that a declaration may ask for; without one a left join is used. -/
inductive DeclaredKind
  | inner
  | full
deriving DecidableEq, Repr

namespace DeclaredKind

/-- The declared kind with the given name. -/
def ofName? (name : String) : Option DeclaredKind :=
  if name = "inner" then some .inner
  else if name = "full" then some .full
  else none

/-- The join kind of an optional declaration. -/
def joinKind : Option DeclaredKind → Sql.JoinKind
  | some .inner => .inner
  | some .full => .full
  | none => .left

end DeclaredKind

/-- A declared relation between two models. -/
structure Join where
  /-- The model that the join leads away from. -/
  origin : String
  /-- The model that the join leads to. -/
  target : String
  /-- How many rows of each side belong together, seen from the origin. -/
  cardinality : Cardinality
  /-- How strongly the join is preferred. -/
  priority : Priority := .normal
  /-- The declared kind of the join. -/
  kind : Option DeclaredKind := none
  /-- The join condition. -/
  condition : JoinScope → Template

namespace Join

/-- The weight of the join. -/
def weight (j : Join) : Nat :=
  joinWeight j.priority j.cardinality

/-- The cardinality of the join when it is crossed from the given model. -/
def cardinalityFrom (j : Join) (model : String) : Cardinality :=
  if model = j.origin then j.cardinality else j.cardinality.reverse

/-- The template of the join condition under a compile context. -/
def template (j : Join) (context : Json) : Template :=
  j.condition ⟨j.origin, j.target, context⟩

end Join

end MetricLayer
