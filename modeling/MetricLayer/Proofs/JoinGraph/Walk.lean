import MetricLayer.Proofs.JoinGraph.InPlace
import Mathlib.Order.Bounds.Basic

/-!
# Walks and shortest paths

A walk crosses edges of a graph one after the other, in either direction. It may visit nodes again,
stay at a node over an edge from the node to itself, and choose among several edges between two
nodes. The table of shortest routes has a route exactly where there is a walk, and its distance is
the least weight of a walk. The path that is rebuilt from the table is a walk of this weight without
repetition. All this holds of every graph, whatever its edges cost.

- `JoinGraph.Walk`, `JoinGraph.totalWeight` — walks and what they cost;
- `JoinGraph.Walk.distance_le` — no walk is cheaper than the path between its ends;
- `JoinGraph.Follows.reverse`, `JoinGraph.Follows.unique` — paths in the other direction;
- `JoinGraph.shortestRoutes_exact` — what the tables of the search say about walks.
-/

namespace MetricLayer

namespace JoinGraph

variable {g : JoinGraph}

/-! ## Walks -/

/-- The steps lead from one node to another over edges of the graph. -/
inductive Walk (g : JoinGraph) : g.Node → List g.Step → g.Node → Prop
  | nil (i : g.Node) : Walk g i [] i
  | cons {s : g.Step} {steps : List g.Step} {j : g.Node} :
      s.edge ∈ g.edges → s.edge.Connects s.source s.target → Walk g s.target steps j →
      Walk g s.source (s :: steps) j

/-- What the edges of some steps cost together. -/
def totalWeight (steps : List g.Step) : Nat :=
  (steps.map (·.edge.weight)).sum

/-- The step over the same edge in the other direction. -/
def Step.reverse (s : g.Step) : g.Step := ⟨s.target, s.source, s.edge⟩

/-- Wherever a walk leads, there is a path, and it costs no more. -/
theorem Walk.distance_le {i j : g.Node} {steps : List g.Step} (h : g.Walk i steps j) :
    g.Reaches i j ∧ g.distance i j ≤ totalWeight steps := by
  induction h with
  | nil i => exact ⟨⟨_, (sound_trails g).self i⟩, by simp [distance_self]⟩
  | @cons s steps j hedge hconnects _ ih =>
    obtain ⟨hreaches, hle⟩ := ih
    obtain ⟨hfirst, hweight⟩ := distance_le_weight hedge hconnects
    have htriangle := distance_triangle hfirst hreaches
    refine ⟨hfirst.trans hreaches, ?_⟩
    calc g.distance s.source j
        ≤ g.distance s.source s.target + g.distance s.target j := htriangle
      _ ≤ s.edge.weight + totalWeight steps := Nat.add_le_add hweight hle
      _ = totalWeight (s :: steps) := by simp [totalWeight]

/-! ## Paths -/

namespace Follows

variable {nodes : List g.Node} {steps steps' : List g.Step}

/-- There is one step less than there are nodes along the way. -/
theorem length_succ (h : Follows g nodes steps) : steps.length + 1 = nodes.length := by
  induction h with
  | single i => rfl
  | cons _ _ ih => simpa using ih

/-- The steps along some nodes are a walk from the first of them to the last, and they enter the
others one after the other. -/
theorem walk {i j : g.Node} (h : Follows g (i :: nodes) steps)
    (hlast : (i :: nodes).getLast? = some j) :
    g.Walk i steps j ∧ steps.map (·.target) = nodes := by
  generalize hlist : i :: nodes = list at h hlast
  induction h generalizing i nodes with
  | single k =>
    obtain ⟨rfl, rfl⟩ := List.cons.inj hlist
    obtain rfl := Option.some.inj hlast
    exact ⟨.nil i, rfl⟩
  | @cons k next e rest steps hedge _ ih =>
    obtain ⟨rfl, rfl⟩ := List.cons.inj hlist
    obtain ⟨hmem, hconnects⟩ := mem_of_direct? hedge
    obtain ⟨hwalk, htargets⟩ := ih rfl (by simpa using hlast)
    exact ⟨.cons (s := ⟨i, next, e⟩) hmem hconnects hwalk, by simp [htargets]⟩

/-- One more step at the end. -/
private theorem concat {i j : g.Node} {e : JoinEdge g.names.length}
    (h : Follows g (nodes ++ [i]) steps) (hedge : g.direct? i j = some e) :
    Follows g (nodes ++ [i, j]) (steps ++ [⟨i, j, e⟩]) := by
  induction nodes generalizing steps with
  | nil =>
    obtain _ | _ := h
    exact .cons hedge (.single j)
  | cons k rest ih =>
    cases rest with
    | nil =>
      obtain _ | ⟨hfirst, hrest⟩ := h
      exact .cons hfirst (ih hrest)
    | cons next rest =>
      obtain _ | ⟨hfirst, hrest⟩ := h
      exact .cons hfirst (ih hrest)

/-- The steps in the other direction. -/
theorem reverse (h : Follows g nodes steps) :
    Follows g nodes.reverse (steps.reverse.map Step.reverse) := by
  induction h with
  | single i => exact .single i
  | @cons i j e rest steps hedge _ ih =>
    rw [List.reverse_cons] at ih
    have hback := ih.concat ((direct?_comm j i).trans hedge)
    simpa [Step.reverse] using hback

/-- Some nodes are followed in one way only, since two nodes have one direct edge. -/
theorem unique (h : Follows g nodes steps) (h' : Follows g nodes steps') : steps = steps' := by
  induction h generalizing steps' with
  | single i =>
    obtain _ | _ := h'
    rfl
  | cons hedge _ ih =>
    obtain _ | ⟨hedge', hrest'⟩ := h'
    obtain rfl := Option.some.inj (hedge.symm.trans hedge')
    rw [ih hrest']

end Follows

/-! ## The nodes of a path -/

/-- The nodes that a trail visits, its ends included. -/
def pathNodes (g : JoinGraph) (i j : g.Node) (c : Trail g.names.length) : List g.Node :=
  if i = j then [i] else i :: c.stops ++ [j]

section PathNodes

variable {i j : g.Node} {c : Trail g.names.length}

/-- The nodes of a path are those of the way back in reverse. -/
theorem reverse_pathNodes (i j : g.Node) (c : Trail g.names.length) :
    (g.pathNodes i j c).reverse = g.pathNodes j i c.reverse := by
  by_cases hij : i = j
  · simp [pathNodes, hij]
  · simp [pathNodes, hij, Ne.symm hij]

/-- A path leads from one node to the other. -/
theorem pathNodes_ends (i j : g.Node) (c : Trail g.names.length) :
    ∃ rest, g.pathNodes i j c = i :: rest ∧ (i :: rest).getLast? = some j := by
  by_cases hij : i = j
  · exact ⟨[], by simp [pathNodes, hij], by simp [hij]⟩
  · exact ⟨c.stops ++ [j], by simp [pathNodes, hij], by simp [List.getLast?_cons]⟩

/-- No node is met twice on a path. -/
theorem nodup_pathNodes (hc : g.trails i j = some c) : (g.pathNodes i j c).Nodup := by
  unfold pathNodes
  split_ifs with hij
  · exact List.nodup_singleton i
  · exact (sound_trails g).nodup_nodes hij hc

/-- The steps along a trail cost as much as the trail, and walking back finds them where the bound
allows for as many steps. -/
theorem exists_follows (hc : g.trails i j = some c) :
    ∃ steps, Follows g (g.pathNodes i j c) steps ∧ totalWeight steps = c.distance ∧
      ∀ bound, steps.length ≤ bound →
        g.walkBack? g.shortestRoutes i bound j [] = some steps := by
  by_cases hij : i = j
  · subst hij
    obtain rfl := Option.some.inj (((sound_trails g).self i).symm.trans hc)
    refine ⟨[], by simpa [pathNodes] using .single i, rfl, fun bound _ => ?_⟩
    cases bound <;> simp [walkBack?]
  · have hnodes : g.pathNodes i j c = i :: c.stops ++ [j] := if_neg hij
    rw [hnodes]
    obtain ⟨steps, -, hfollows⟩ := walkBack?_eq_some hij hc (.single j) (Nat.lt_succ_self _)
    refine ⟨steps, hfollows, hfollows.sum_weights hij hc, fun bound hbound => ?_⟩
    have hlength := hfollows.length_succ
    simp only [List.cons_append, List.length_cons, List.length_append, List.length_nil] at hlength
    -- The trail has one step more than stops, so the bound allows for all of them.
    have hstops : c.stops.length < bound := by omega
    obtain ⟨steps', hsteps', hfollows'⟩ := walkBack?_eq_some hij hc (.single j) hstops
    rw [hsteps', hfollows'.unique hfollows]

end PathNodes

/-! ## Shortest paths -/

/-- A walk without repetition of the given weight. -/
structure IsPath (g : JoinGraph) (i j : g.Node) (weight : Nat) (steps : List g.Step) : Prop where
  /-- The steps lead from one node to the other over edges of the graph. -/
  walk : g.Walk i steps j
  /-- No node is visited twice. -/
  nodup : (i :: steps.map (·.target)).Nodup
  /-- There are fewer edges than nodes. -/
  length_le : steps.length ≤ g.names.length - 1
  /-- The edges have the given weight together. -/
  weight_eq : totalWeight steps = weight

/-- The steps along a trail that cost as much as the trail are a path. -/
theorem isPath_of_follows {i j : g.Node} {c : Trail g.names.length} (hc : g.trails i j = some c)
    {steps : List g.Step} (h : Follows g (g.pathNodes i j c) steps)
    (hweight : totalWeight steps = c.distance) : g.IsPath i j c.distance steps := by
  have hnodup := nodup_pathNodes hc
  obtain ⟨rest, hnodes, hlast⟩ := g.pathNodes_ends i j c
  rw [hnodes] at h hnodup
  obtain ⟨hwalk, htargets⟩ := h.walk hlast
  refine ⟨hwalk, htargets ▸ hnodup, ?_, hweight⟩
  -- Nodes that differ from each other are no more than there are.
  have hcard := hnodup.length_le_card
  rw [Fintype.card_fin, ← h.length_succ] at hcard
  omega

/-- A walk leads exactly where a trail does. -/
theorem exists_walk_iff (i j : g.Node) : (∃ steps, g.Walk i steps j) ↔ g.Reaches i j := by
  constructor
  · rintro ⟨steps, hwalk⟩
    exact hwalk.distance_le.1
  · rintro ⟨c, hc⟩
    obtain ⟨steps, hfollows, hweight, -⟩ := exists_follows hc
    exact ⟨steps, (isPath_of_follows hc hfollows hweight).walk⟩

/-- The path between two nodes is rebuilt from the steps along their trail. -/
theorem pathSteps_eq {i j : g.Node} {c : Trail g.names.length} (hc : g.trails i j = some c)
    {steps : List g.Step} (h : Follows g (g.pathNodes i j c) steps) :
    g.pathSteps g.shortestRoutes i j = .ok steps := by
  obtain ⟨steps', hfollows, hweight, hsteps⟩ := exists_follows hc
  obtain rfl := hfollows.unique h
  have hlength := (isPath_of_follows hc hfollows hweight).length_le
  rw [pathSteps, hsteps (g.names.length + 1) (by omega)]

/-- What the search finds between two nodes. Its tables can be filled in place. There is no route
exactly where there is no walk. The distance of a route is the least weight of a walk, and its path
can be rebuilt, whatever bound on the number of steps allows for it: it is a walk of that weight
without repetition, and its reverse is the path in the other direction. -/
theorem shortestRoutes_exact (g : JoinGraph) (i j : g.Node) :
    (g.pathTables.distance i j = (g.shortestRoutes.route? i j).map (·.distance) ∧
      g.pathTables.previous i j = (g.shortestRoutes.route? i j).bind (·.previous) ∧
      g.pathTables.direct i j = if i = j then none else g.direct? i j) ∧
    (g.shortestRoutes.route? i j = none ↔ ¬∃ steps, g.Walk i steps j) ∧
    ∀ route, g.shortestRoutes.route? i j = some route →
      IsLeast {weight | ∃ steps, g.Walk i steps j ∧ totalWeight steps = weight} route.distance ∧
      ∃ steps, g.IsPath i j route.distance steps ∧
        g.pathSteps g.shortestRoutes i j = .ok steps ∧
        (∀ bound, steps.length ≤ bound →
          g.walkBack? g.shortestRoutes i bound j [] = some steps) ∧
        g.pathSteps g.shortestRoutes j i = .ok (steps.reverse.map Step.reverse) := by
  obtain ⟨hknows, hdirect⟩ := g.pathTables_knows
  have hroute := represents_trails g i j
  refine ⟨⟨hknows.distance i j, hknows.previous i j, hdirect i j⟩, ?_, fun route hsome => ?_⟩
  · rw [exists_walk_iff, hroute, Option.map_eq_none_iff, Reaches, Option.eq_none_iff_forall_ne_some,
      not_exists]
  rw [hroute, Option.map_eq_some_iff] at hsome
  obtain ⟨c, hc, rfl⟩ := hsome
  obtain ⟨steps, hfollows, hweight, hsteps⟩ := exists_follows hc
  have hpath := isPath_of_follows hc hfollows hweight
  refine ⟨⟨⟨steps, hpath.walk, hweight⟩, ?_⟩, steps, hpath, pathSteps_eq hc hfollows, hsteps, ?_⟩
  · rintro _ ⟨other, hwalk, rfl⟩
    have hle := hwalk.distance_le.2
    rwa [distance_eq hc] at hle
  · -- The trail in the other direction is the reverse, and so are its steps.
    have hreverse := hfollows.reverse
    rw [reverse_pathNodes] at hreverse
    exact pathSteps_eq ((sound_trails g).symm hc) hreverse

/-- Four nodes in a square with an edge from a node to itself, three edges along one of the sides,
and a fifth node on its own. -/
private def square : JoinGraph where
  names := ["a", "b", "c", "d", "e"]
  edges := [⟨0, 1, 10, 0⟩, ⟨1, 2, 10, 1⟩, ⟨2, 2, 1, 2⟩, ⟨3, 2, 10, 3⟩, ⟨0, 3, 30, 4⟩,
    ⟨3, 0, 10, 5⟩, ⟨0, 3, 10, 6⟩]

private def corner (i : Fin 5) : square.Node := i

/-- Of the two ways across the square, which cost the same, the one that was found first is rebuilt
in both directions; along the side the first of the cheapest edges is taken; and no walk leads to
the fifth node. -/
theorem shortestRoutes_exact_square :
    (∃ steps, square.IsPath (corner 0) (corner 2) 20 steps ∧
      steps.map (·.edge.join) = [0, 1] ∧ square.pathSteps square.shortestRoutes (corner 2)
        (corner 0) = .ok (steps.reverse.map Step.reverse)) ∧
    (∃ steps, square.IsPath (corner 0) (corner 3) 10 steps ∧ steps.map (·.edge.join) = [5]) ∧
    ¬∃ steps, square.Walk (corner 0) steps (corner 4) := by
  have hjoins {i j : square.Node} {steps : List square.Step} {joins : List Nat}
      (hsteps : square.pathSteps square.shortestRoutes i j = .ok steps)
      (h : (square.pathSteps square.shortestRoutes i j).toOption.map (·.map (·.edge.join)) =
        some joins) : steps.map (·.edge.join) = joins := by
    rw [hsteps] at h
    exact Option.some.inj h
  obtain ⟨-, across, hacross, hsteps, -, hreverse⟩ := (shortestRoutes_exact square (corner 0)
    (corner 2)).2.2 ⟨20, some (corner 1)⟩ (by decide +kernel)
  obtain ⟨-, along, halong, hsteps', -, -⟩ := (shortestRoutes_exact square (corner 0)
    (corner 3)).2.2 ⟨10, some (corner 0)⟩ (by decide +kernel)
  refine ⟨⟨across, hacross, hjoins hsteps ?_, hreverse⟩, ⟨along, halong, hjoins hsteps' ?_⟩,
    (shortestRoutes_exact square (corner 0) (corner 4)).2.1.1 ?_⟩
  · decide +kernel
  · decide +kernel
  · decide +kernel

end JoinGraph

end MetricLayer
