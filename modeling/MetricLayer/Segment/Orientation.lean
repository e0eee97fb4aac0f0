import MetricLayer.Repository.Basic

/-!
# Oriented join trees

A join tree seen from one of its models, the anchor: each join leads away from the anchor, and the
joins are listed breadth first.
-/

namespace MetricLayer

/-- A join of a tree, leading away from the anchor. -/
structure OrientedJoin where
  /-- The model nearer to the anchor. -/
  parent : String
  /-- The model that the join adds. -/
  child : String
  /-- The position of the join among the declared joins. -/
  join : Nat
deriving DecidableEq, Repr

namespace JoinTree

/-- The joins from a model to models that have not been seen. -/
def newJoins (t : JoinTree) (seen : List String) (parent : String) : List OrientedJoin :=
  addAllNewBy OrientedJoin.child []
    (((t.neighbours parent).filter fun (child, _) => child ∉ seen).map fun (child, e) =>
      ⟨parent, child, e.join⟩)

/-- The joins that lead away from the models in the queue to models that have not been seen,
breadth first. The first argument bounds the number of models. -/
def orientFrom (t : JoinTree) : (bound : Nat) → (queue seen : List String) → List OrientedJoin
  | 0, _, _ => []
  | _, [], _ => []
  | bound + 1, parent :: queue, seen =>
    let joins := t.newJoins seen parent
    let children := joins.map (·.child)
    joins ++ t.orientFrom bound (queue ++ children) (seen ++ children)

/-- The joins of a tree, leading away from the anchor. -/
def orient (t : JoinTree) (anchor : String) : List OrientedJoin :=
  t.orientFrom t.models.length [anchor] [anchor]

end JoinTree

namespace Repository

/-- The declaration of an oriented join. -/
def declared (r : Repository) (j : OrientedJoin) : Result Join :=
  match r.join? j.join with
  | some join => .ok join
  | none => .error (.brokenPath j.parent j.child)

/-- Whether one of the given joins multiplies rows when it is crossed away from the anchor. -/
def anyFansOut (r : Repository) : List OrientedJoin → Result Bool
  | [] => .ok false
  | j :: rest => do
    let join ← r.declared j
    if (join.cardinalityFrom j.parent).fansOut then return true
    r.anyFansOut rest

/-- Whether the way from one model to another multiplies rows of the first. -/
def fansOut (r : Repository) (origin target : String) : Result Bool := do
  let tree ← r.graph.joinTree [origin, target]
  r.anyFansOut (tree.orient origin)

end Repository

end MetricLayer
