import MetricLayer.Schema.Join

/-!
# Join graphs

The declared joins as a weighted undirected graph over the models.
-/

namespace MetricLayer

/-- An edge between two of `n` nodes. -/
structure JoinEdge (n : Nat) where
  /-- One end. -/
  origin : Fin n
  /-- The other end. -/
  target : Fin n
  /-- The cost of using the edge. -/
  weight : Nat
  /-- The position of the join among the declared joins. -/
  join : Nat
deriving DecidableEq, Repr

/-- A weighted undirected graph whose nodes have names. -/
structure JoinGraph where
  /-- The names of the nodes. -/
  names : List String
  /-- The edges, in declaration order. -/
  edges : List (JoinEdge names.length)

/-- The position of the last occurrence of a name. -/
def lastIndex? (names : List String) (name : String) : Option (Fin names.length) :=
  (List.finRange names.length).reverse.find? fun i => names.get i = name

/-- The edge of a join whose two models are among the nodes. -/
def JoinEdge.ofJoin? (names : List String) (join : Join) (index : Nat) :
    Option (JoinEdge names.length) := do
  return ⟨← lastIndex? names join.origin, ← lastIndex? names join.target, join.weight, index⟩

namespace JoinGraph

/-- The graph of the given models and joins. A join of an unknown model is left out; of two models
of one name the last is meant. -/
def build (names : List String) (joins : List Join) : JoinGraph :=
  ⟨names, joins.zipIdx.filterMap fun (j, i) => JoinEdge.ofJoin? names j i⟩

/-- A node of a graph. -/
abbrev Node (g : JoinGraph) : Type := Fin g.names.length

/-- The node with the given name. -/
def node? (g : JoinGraph) (name : String) : Option g.Node :=
  lastIndex? g.names name

/-- The name of a node. -/
def name (g : JoinGraph) (i : g.Node) : String :=
  g.names.get i

/-- The cheaper of two edges, the first one where they cost the same. -/
def cheaper {n : Nat} (best : Option (JoinEdge n)) (edge : JoinEdge n) : Option (JoinEdge n) :=
  match best with
  | none => some edge
  | some b => if edge.weight < b.weight then some edge else some b

/-- The cheapest edge between two nodes, and of several the one declared first. -/
def direct? (g : JoinGraph) (i j : g.Node) : Option (JoinEdge g.names.length) :=
  (g.edges.filter fun e => (e.origin = i ∧ e.target = j) ∨ (e.origin = j ∧ e.target = i)).foldl
    cheaper none

end JoinGraph

end MetricLayer
