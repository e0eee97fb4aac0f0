import MetricLayer.JoinGraph.Basic
import MetricLayer.Schema.Error

/-!
# Shortest paths

The cheapest routes between all pairs of nodes. A table starts with the direct edges and is then
relaxed with every node in turn as an intermediate stop: a route is replaced only by a strictly
cheaper one. Each entry remembers the last stop before its end, from which the path is rebuilt.
-/

namespace MetricLayer

/-- What is known about the best route between two nodes. -/
structure Route (n : Nat) where
  /-- The total weight of the route. -/
  distance : Nat
  /-- The last stop before the end, where there is one. -/
  previous : Option (Fin n)
deriving DecidableEq, Repr

/-- A table with an optional route for each pair of nodes. -/
abbrev RouteTable (n : Nat) : Type := Vector (Vector (Option (Route n)) n) n

namespace RouteTable

/-- The route from one node to another. -/
def route? {n : Nat} (t : RouteTable n) (i j : Fin n) : Option (Route n) :=
  (t.get i).get j

/-- The table with the given entries. -/
def ofFn {n : Nat} (f : Fin n → Fin n → Option (Route n)) : RouteTable n :=
  Vector.ofFn fun i => Vector.ofFn fun j => f i j

/-- The better of a route and the detour that first leads to an intermediate stop. -/
def better {n : Nat} (current toStop fromStop : Option (Route n)) : Option (Route n) :=
  match toStop, fromStop with
  | some a, some b =>
    let detour : Route n := ⟨a.distance + b.distance, b.previous⟩
    match current with
    | none => some detour
    | some c => if detour.distance < c.distance then some detour else some c
  | _, _ => current

/-- Allow one more node as an intermediate stop. -/
def relax {n : Nat} (t : RouteTable n) (stop : Fin n) : RouteTable n :=
  ofFn fun i j => better (t.route? i j) (t.route? i stop) (t.route? stop j)

end RouteTable

namespace JoinGraph

/-- The routes that use at most one edge. -/
def directRoutes (g : JoinGraph) : RouteTable g.names.length :=
  RouteTable.ofFn fun i j =>
    if i = j then some ⟨0, none⟩
    else (g.direct? i j).map fun e => ⟨e.weight, some i⟩

/-- The cheapest routes between all pairs of nodes. -/
def shortestRoutes (g : JoinGraph) : RouteTable g.names.length :=
  (List.finRange g.names.length).foldl RouteTable.relax g.directRoutes

/-- One edge of a path, in the direction in which the path crosses it. -/
structure Step (g : JoinGraph) where
  /-- The node that the step leaves. -/
  source : g.Node
  /-- The node that the step enters. -/
  target : g.Node
  /-- The edge between them. -/
  edge : JoinEdge g.names.length

/-- The steps from `start` to `current`, found by walking back, before the steps already found. The
number of steps is bounded. -/
def walkBack? (g : JoinGraph) (t : RouteTable g.names.length) (start : g.Node) :
    (bound : Nat) → (current : g.Node) → (found : List g.Step) → Option (List g.Step)
  | 0, current, found => if current = start then some found else none
  | bound + 1, current, found =>
    if current = start then some found
    else do
      let previous ← (← t.route? start current).previous
      let edge ← g.direct? previous current
      walkBack? g t start bound previous (⟨previous, current, edge⟩ :: found)

/-- The steps of the cheapest path between two nodes. -/
def pathSteps (g : JoinGraph) (t : RouteTable g.names.length) (start stop : g.Node) :
    Result (List g.Step) :=
  match g.walkBack? t start (g.names.length + 1) stop [] with
  | some steps => .ok steps
  | none => .error (.brokenPath (g.name start) (g.name stop))

end JoinGraph

end MetricLayer
