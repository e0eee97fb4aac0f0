import MetricLayer.JoinGraph.ShortestPath
import MetricLayer.Reachable

/-!
# Join trees

The joins that connect a set of requested models at low cost: the requested models form a complete
graph whose edges weigh as much as the cheapest path between their ends; the edges of a minimum
spanning tree of that graph are then replaced by the joins along those paths.
-/

namespace MetricLayer

/-- A join used by a tree, in the direction in which a path crosses it. -/
structure JoinTreeEdge where
  /-- The model that the path leaves. -/
  origin : String
  /-- The model that the path enters. -/
  target : String
  /-- The position of the join among the declared joins. -/
  join : Nat
deriving DecidableEq, Repr

/-- Models connected by joins. -/
structure JoinTree where
  /-- The requested models, then those that the joins lead through. -/
  models : List String
  /-- The joins. -/
  edges : List JoinTreeEdge
deriving DecidableEq, Repr

namespace JoinTree

/-- The edges that touch a model, each with the model at its other end. -/
def neighbours (t : JoinTree) (model : String) : List (String × JoinTreeEdge) :=
  t.edges.filterMap fun e =>
    if e.origin = model then some (e.target, e)
    else if e.target = model then some (e.origin, e)
    else none

/-- Whether every model is connected to the first one. -/
def isConnected (t : JoinTree) : Bool :=
  match t.models with
  | [] => true
  | first :: _ =>
    let found := reachedFrom (fun m => (t.neighbours m).map (·.1)) t.edges.length [first] [first]
    t.models.all (· ∈ found)

end JoinTree

/-- All pairs of entries of a list, in the order of their positions. -/
def pairs {α : Type} : List α → List (α × α)
  | [] => []
  | a :: rest => rest.map (a, ·) ++ pairs rest

namespace JoinGraph

/-- Two requested nodes with the cost of connecting them. -/
structure Link (g : JoinGraph) where
  /-- One end. -/
  source : g.Node
  /-- The other end. -/
  target : g.Node
  /-- The total weight of the cheapest path between them. -/
  distance : Nat

/-- Which nodes are already connected: each node has a label, and connected nodes have the same. -/
abbrev Components (g : JoinGraph) : Type := Vector g.Node g.names.length

namespace Components

/-- No two nodes are connected: each is its own label. -/
def separate (g : JoinGraph) : Components g :=
  Vector.ofFn id

/-- Give the nodes connected with `j` the label of `i`. -/
def merge {g : JoinGraph} (c : Components g) (i j : g.Node) : Components g :=
  let kept := c.get i
  let replaced := c.get j
  c.map fun label => if label = replaced then kept else label

end Components

/-- The links that connect two components, taken in order. -/
def spanning {g : JoinGraph} (c : Components g) : List (Link g) → List (Link g)
  | [] => []
  | l :: rest =>
    if c.get l.source = c.get l.target then spanning c rest
    else l :: spanning (c.merge l.source l.target) rest

/-- The node of a requested model. -/
def requestedNode (g : JoinGraph) (name : String) : Result g.Node :=
  match g.node? name with
  | some i => .ok i
  | none => .error (.unknownModel name)

/-- The nodes of requested models, each at its first occurrence. -/
def requestedNodes (g : JoinGraph) (requested : List String) : Result (List g.Node) :=
  (distinct requested).mapM g.requestedNode

/-- The link between two requested nodes. -/
def link (g : JoinGraph) (t : RouteTable g.names.length) (i j : g.Node) : Result (Link g) :=
  match t.route? i j with
  | some r => .ok ⟨i, j, r.distance⟩
  | none => .error (.noPath (g.name i) (g.name j))

/-- Add the join of a step to a tree unless it is already there. -/
def addStep (g : JoinGraph) (t : JoinTree) (s : g.Step) : JoinTree :=
  if s.edge.join ∈ t.edges.map (·.join) then t
  else
    { models := addAllNew t.models [g.name s.source, g.name s.target]
      edges := t.edges ++ [⟨g.name s.source, g.name s.target, s.edge.join⟩] }

/-- The joins that connect the requested models. -/
def joinTree (g : JoinGraph) (requested : List String) : Result JoinTree := do
  let nodes ← g.requestedNodes requested
  if nodes.length ≤ 1 then return ⟨distinct requested, []⟩
  let routes := g.shortestRoutes
  let links ← (pairs nodes).mapM fun (i, j) => g.link routes i j
  let chosen := spanning (.separate g) (links.mergeSort fun a b => a.distance ≤ b.distance)
  let paths ← chosen.mapM fun l => g.pathSteps routes l.source l.target
  return paths.flatten.foldl (addStep g) ⟨distinct requested, []⟩

end JoinGraph

end MetricLayer
