import MetricLayer.Proofs.JoinGraph.ShortestPath
import Mathlib.Algebra.Ring.Nat
import Mathlib.Data.Fintype.Card

/-!
# Paths of a join graph

The trails of a join graph, and what they say about the paths that are rebuilt from the table of
routes: two nodes have a trail exactly where edges connect them, and walking back along the routes
always succeeds and finds the steps of the trail.
-/

namespace MetricLayer

namespace JoinGraph

/-! ## The trails of a graph -/

/-- The weight of the direct edge between two nodes. -/
def weight? (g : JoinGraph) (i j : g.Node) : Option Nat :=
  (g.direct? i j).map (·.weight)

/-- The trails that use at most one edge. -/
def directTrails (g : JoinGraph) : TrailTable g.names.length := fun i j =>
  if i = j then some ⟨0, []⟩ else (g.direct? i j).map fun e => ⟨e.weight, []⟩

/-- The trails of the cheapest paths between all pairs of nodes. -/
def trails (g : JoinGraph) : TrailTable g.names.length :=
  (List.finRange g.names.length).foldl TrailTable.relax g.directTrails

variable {g : JoinGraph}

/-- The direct routes stand for the direct trails. -/
theorem represents_directTrails : g.directTrails.Represents g.directRoutes := by
  intro i j
  rw [directRoutes, TrailTable.route?_ofFn]
  by_cases hij : i = j
  · simp [directTrails, TrailTable.routeOf, hij]
  · cases he : g.direct? i j with
    | none => simp [directTrails, hij, he]
    | some e => simp [directTrails, TrailTable.routeOf, hij, he]

/-- The direct trails are sound as long as no stop is allowed. -/
theorem sound_directTrails (g : JoinGraph) : g.directTrails.Sound g.weight? [] where
  self i := by simp [directTrails]
  edge {i j c} hij hc _ := by
    simp only [directTrails, hij, if_false, Option.map_eq_some_iff] at hc
    obtain ⟨e, he, rfl⟩ := hc
    simp [weight?, he]
  le_edge {i j d} hd := by
    obtain ⟨e, he, rfl⟩ := Option.map_eq_some_iff.1 hd
    by_cases hij : i = j
    · exact ⟨⟨0, []⟩, by simp [directTrails, hij], Nat.zero_le _⟩
    · exact ⟨⟨e.weight, []⟩, by simp [directTrails, hij, he], Nat.le_refl _⟩
  split {i j x c us vs} hc hstops := by
    have hnil : c.stops = [] := by
      by_cases hij : i = j
      · simp only [directTrails, hij, if_true, Option.some.injEq] at hc
        rw [← hc]
      · simp only [directTrails, hij, if_false, Option.map_eq_some_iff] at hc
        obtain ⟨e, -, rfl⟩ := hc
        rfl
    simp [hnil] at hstops
  triangle hx := by simp at hx
  symm {i j c} hc := by
    by_cases hij : i = j
    · simp only [directTrails, hij, if_true, Option.some.injEq] at hc ⊢
      rw [← hc]
      rfl
    · simp only [directTrails, hij, Ne.symm hij, if_false, Option.map_eq_some_iff] at hc ⊢
      obtain ⟨e, he, rfl⟩ := hc
      exact ⟨e, by rw [direct?_comm, he], rfl⟩

/-- The trails are sound where all stops are allowed. -/
theorem sound_trails (g : JoinGraph) :
    g.trails.Sound g.weight? ((List.finRange g.names.length).reverse ++ []) :=
  (sound_directTrails g).foldl_relax _

/-- The table of shortest routes holds what routes remember of the trails. -/
theorem represents_trails (g : JoinGraph) : g.trails.Represents g.shortestRoutes :=
  TrailTable.represents_foldl_relax (sound_directTrails g) represents_directTrails _

/-! ## Walking back -/

/-- The steps from each node of a list to the next, each over the direct edge. -/
inductive Follows (g : JoinGraph) : List g.Node → List g.Step → Prop
  | single (i : g.Node) : Follows g [i] []
  | cons {i j : g.Node} {e : JoinEdge g.names.length} {nodes : List g.Node} {steps : List g.Step} :
      g.direct? i j = some e → Follows g (j :: nodes) steps →
      Follows g (i :: j :: nodes) (⟨i, j, e⟩ :: steps)

namespace Follows

variable {nodes : List g.Node} {steps : List g.Step}

/-- The steps along nodes use direct edges. -/
theorem direct?_eq (h : Follows g nodes steps) {s : g.Step} (hs : s ∈ steps) :
    g.direct? s.source s.target = some s.edge := by
  induction h with
  | single i => cases hs
  | cons he _ ih =>
    rcases List.mem_cons.1 hs with rfl | hs
    · exact he
    · exact ih hs

/-- A step leads from a node of the list to the next one. -/
theorem eq_append_of_mem (h : Follows g nodes steps) {s : g.Step} (hs : s ∈ steps) :
    ∃ us vs, nodes = us ++ s.source :: s.target :: vs := by
  induction h with
  | single i => cases hs
  | cons _ _ ih =>
    rcases List.mem_cons.1 hs with rfl | hs
    · exact ⟨[], _, rfl⟩
    · obtain ⟨us, vs, hnodes⟩ := ih hs
      exact ⟨_ :: us, vs, by rw [hnodes]; rfl⟩

/-- The ends of a step along nodes are among the nodes. -/
theorem mem_nodes (h : Follows g nodes steps) {s : g.Step} (hs : s ∈ steps) :
    s.source ∈ nodes ∧ s.target ∈ nodes := by
  obtain ⟨us, vs, rfl⟩ := h.eq_append_of_mem hs
  simp

/-- No step leads to the first node. -/
theorem target_mem {i : g.Node} (h : Follows g (i :: nodes) steps) {s : g.Step} (hs : s ∈ steps) :
    s.target ∈ nodes := by
  obtain ⟨us, vs, hnodes⟩ := h.eq_append_of_mem hs
  cases us with
  | nil => simp [(List.cons.inj hnodes).2]
  | cons u us => simp [(List.cons.inj hnodes).2]

/-- No step leaves the last node. -/
theorem source_mem {j : g.Node} (h : Follows g (nodes ++ [j]) steps) {s : g.Step}
    (hs : s ∈ steps) : s.source ∈ nodes := by
  obtain ⟨us, vs, hnodes⟩ := h.eq_append_of_mem hs
  have hreverse := congrArg List.reverse hnodes
  simp only [List.reverse_append, List.reverse_cons, List.reverse_nil, List.nil_append,
    List.singleton_append, List.append_assoc] at hreverse
  rw [← List.mem_reverse]
  cases hvs : vs.reverse with
  | nil =>
    rw [hvs] at hreverse
    simp [(List.cons.inj hreverse).2]
  | cons v vs =>
    rw [hvs] at hreverse
    simp [(List.cons.inj hreverse).2]

/-- Whatever equivalence holds between the ends of the steps holds along the whole path. -/
theorem rel_of_mem {P : g.Node → g.Node → Prop} (hP : Equivalence P) {i x : g.Node}
    (h : Follows g (i :: nodes) steps) (hsteps : ∀ s ∈ steps, P s.source s.target)
    (hx : x ∈ i :: nodes) : P i x := by
  generalize hlist : i :: nodes = list at h hx
  induction h generalizing i nodes with
  | single j =>
    obtain ⟨rfl, rfl⟩ := List.cons.inj hlist
    rw [List.mem_singleton.1 hx]
    exact hP.refl _
  | cons _ _ ih =>
    obtain ⟨rfl, rfl⟩ := List.cons.inj hlist
    obtain ⟨hfirst, hrest⟩ := List.forall_mem_cons.1 hsteps
    rcases List.mem_cons.1 hx with rfl | hx
    · exact hP.refl _
    · exact hP.trans hfirst (ih hrest rfl hx)

/-- The steps up to a node and those from it on. -/
theorem exists_append {us vs : List g.Node} {x : g.Node} (h : Follows g (us ++ x :: vs) steps) :
    ∃ left right, steps = left ++ right ∧ Follows g (us ++ [x]) left ∧
      Follows g (x :: vs) right := by
  induction us generalizing steps with
  | nil => exact ⟨[], steps, rfl, .single x, h⟩
  | cons i us ih =>
    cases us with
    | nil =>
      obtain _ | ⟨he, hrest⟩ := h
      exact ⟨[_], _, rfl, .cons he (.single x), hrest⟩
    | cons j us =>
      obtain _ | ⟨he, hrest⟩ := h
      obtain ⟨left, right, rfl, hleft, hright⟩ := ih hrest
      exact ⟨_ :: left, right, rfl, .cons he hleft, hright⟩

/-- The steps along the first nodes, those along the last nodes, and those from one to the other. -/
theorem exists_parts {front middle back : List g.Node}
    (h : Follows g (front ++ (middle ++ back)) steps) (hfront : front ≠ []) (hback : back ≠ []) :
    ∃ u ∈ front, ∃ v ∈ back, ∃ first between last, steps = first ++ (between ++ last) ∧
      Follows g front first ∧ Follows g (u :: middle ++ [v]) between ∧ Follows g back last := by
  obtain ⟨front, u, rfl⟩ := (List.eq_nil_or_concat front).resolve_left hfront
  obtain ⟨v, back, rfl⟩ := List.exists_cons_of_ne_nil hback
  rw [List.concat_eq_append, List.append_assoc, List.singleton_append] at h
  obtain ⟨first, rest, rfl, hfirst, hrest⟩ := h.exists_append
  rw [← List.cons_append] at hrest
  obtain ⟨between, last, rfl, hbetween, hlast⟩ := hrest.exists_append
  rw [← List.concat_eq_append] at hfirst
  exact ⟨u, by simp, v, by simp, first, between, last, rfl, hfirst, hbetween, hlast⟩

/-- Each two successive nodes have a step. -/
theorem exists_step {us vs : List g.Node} {u v : g.Node}
    (h : Follows g (us ++ u :: v :: vs) steps) : ∃ s ∈ steps, s.source = u ∧ s.target = v := by
  obtain ⟨left, right, rfl, -, hright⟩ := h.exists_append
  obtain _ | ⟨he, hrest⟩ := hright
  exact ⟨_, List.mem_append_right _ List.mem_cons_self, rfl, rfl⟩

/-- A path with a step touches each of its nodes with one. -/
theorem exists_step_of_mem {i j x : g.Node} (h : Follows g (i :: j :: nodes) steps)
    (hx : x ∈ i :: j :: nodes) : ∃ s ∈ steps, x = s.source ∨ x = s.target := by
  obtain ⟨us, vs, hsplit⟩ := List.append_of_mem hx
  rw [hsplit] at h
  cases us with
  | nil =>
    obtain ⟨rfl, rfl⟩ := List.cons.inj hsplit
    have h : Follows g ([] ++ i :: j :: nodes) steps := h
    obtain ⟨s, hs, hsource, -⟩ := h.exists_step
    exact ⟨s, hs, .inl hsource.symm⟩
  | cons u us =>
    obtain ⟨us', u', hlast⟩ := List.eq_nil_or_concat (u :: us) |>.resolve_left (by simp)
    rw [hlast, List.concat_eq_append, List.append_assoc] at h
    obtain ⟨s, hs, -, htarget⟩ := h.exists_step
    exact ⟨s, hs, .inr htarget.symm⟩

/-- A path without repetition uses no join twice. -/
theorem nodup_joins (hg : g.Regular) (h : Follows g nodes steps) (hnodes : nodes.Nodup) :
    (steps.map (·.edge.join)).Nodup := by
  induction h with
  | single i => exact List.nodup_nil
  | @cons i j e nodes steps he hrest ih =>
    obtain ⟨hi, hnodup⟩ := List.nodup_cons.1 hnodes
    rw [List.map_cons, List.nodup_cons]
    refine ⟨fun hmem => hi ?_, ih hnodup⟩
    obtain ⟨s, hs, hjoin⟩ := List.mem_map.1 hmem
    -- A later step over the same edge would come back to the first node.
    obtain ⟨hedge, hconnects⟩ := mem_of_direct? he
    obtain ⟨hedge', hconnects'⟩ := mem_of_direct? (hrest.direct?_eq hs)
    rw [hg.joins _ hedge' _ hedge hjoin] at hconnects'
    obtain ⟨hsource, htarget⟩ := hrest.mem_nodes hs
    rcases hconnects.eq_or hconnects' with ⟨heq, -⟩ | ⟨heq, -⟩
    · exact heq ▸ hsource
    · exact heq ▸ htarget

end Follows

/-- A trail without stops between two nodes is their direct edge. -/
private theorem exists_direct?_of_stops_eq_nil {i j : g.Node} {c : Trail g.names.length}
    (hij : i ≠ j) (hc : g.trails i j = some c) (hstops : c.stops = []) :
    ∃ e, g.direct? i j = some e := by
  -- The invariant knows the weight of such a trail as that of an edge, so there is an edge.
  have hweight := (sound_trails g).edge hij hc hstops
  obtain ⟨e, he, -⟩ := Option.map_eq_some_iff.1 hweight
  exact ⟨e, he⟩

/-- Walking back along the routes finds the steps of the trail. -/
theorem walkBack?_eq_some {start current : g.Node} {c : Trail g.names.length}
    (hne : start ≠ current) (hc : g.trails start current = some c) {rest : List g.Node}
    {found : List g.Step} (hfound : Follows g (current :: rest) found) {bound : Nat}
    (hbound : c.stops.length < bound) :
    ∃ steps, g.walkBack? g.shortestRoutes start bound current found = some steps ∧
      Follows g (start :: c.stops ++ current :: rest) steps := by
  -- Induction on the bound. The steps that are already found lead from the current node to the end;
  -- each round puts the step before them, towards the start of the trail.
  have hsound := sound_trails g
  induction bound generalizing current c rest found with
  | zero => simp at hbound
  | succ bound ih =>
    have hroute := represents_trails g start current
    rw [hc] at hroute
    rw [walkBack?, if_neg (Ne.symm hne), hroute]
    rcases List.eq_nil_or_concat c.stops with hstops | ⟨us, p, hstops⟩
    · -- Without stops the last step starts where the path starts.
      obtain ⟨e, he⟩ := exists_direct?_of_stops_eq_nil hne hc hstops
      refine ⟨⟨start, current, e⟩ :: found, ?_, ?_⟩
      · cases bound <;> simp [TrailTable.routeOf, hne, hstops, he, walkBack?]
      · rw [hstops]
        exact .cons he hfound
    · -- Otherwise the last stop is the end of a shorter trail.
      rw [List.concat_eq_append] at hstops
      obtain ⟨-, a, b, ha, hb, hus, hnil, -⟩ := hsound.split hc hstops
      have hp : p ∈ c.stops := by simp [hstops]
      have hstart : start ≠ p := fun h => hsound.not_mem_left hc (h ▸ hp)
      have hcurrent : p ≠ current := fun h => hsound.not_mem_right hc (h ▸ hp)
      obtain ⟨e, he⟩ := exists_direct?_of_stops_eq_nil hcurrent hb hnil
      have hlength : a.stops.length < bound := by
        simp [hstops] at hbound
        rw [hus]
        omega
      obtain ⟨steps, hsteps, hfollows⟩ := ih hstart ha (.cons he hfound) hlength
      have hlast : (start :: (us ++ [p])).getLast? = some p := by
        rw [← List.cons_append, List.getLast?_concat]
      refine ⟨steps, ?_, ?_⟩
      · simpa [TrailTable.routeOf, hne, hstops, he, hlast] using hsteps
      · rw [hus] at hfollows
        simpa [hstops] using hfollows

/-- The steps of the cheapest path between two nodes are those of their trail. -/
theorem pathSteps_eq_ok {start stop : g.Node} {c : Trail g.names.length} (hne : start ≠ stop)
    (hc : g.trails start stop = some c) :
    ∃ steps, g.pathSteps g.shortestRoutes start stop = .ok steps ∧
      Follows g (start :: c.stops ++ [stop]) steps := by
  -- The stops differ from each other, so the bound of the walk is never reached.
  have hlength : c.stops.length < g.names.length + 1 := by
    have hnodup := List.Nodup.length_le_card ((sound_trails g).nodup_stops hc)
    rw [Fintype.card_fin] at hnodup
    omega
  obtain ⟨steps, hsteps, hfollows⟩ := walkBack?_eq_some hne hc (.single stop) hlength
  exact ⟨steps, by rw [pathSteps, hsteps], hfollows⟩

/-- The edges along a trail weigh as much as the trail is long. -/
theorem Follows.sum_weights {i j : g.Node} {c : Trail g.names.length} (hij : i ≠ j)
    (hc : g.trails i j = some c) {steps : List g.Step}
    (h : Follows g (i :: c.stops ++ [j]) steps) :
    (steps.map (·.edge.weight)).sum = c.distance := by
  have hsound := sound_trails g
  have hweight {i j : g.Node} {c : Trail g.names.length} {e : JoinEdge g.names.length}
      (hij : i ≠ j) (hc : g.trails i j = some c) (hstops : c.stops = [])
      (he : g.direct? i j = some e) : e.weight = c.distance := by
    have hedge := hsound.edge hij hc hstops
    rw [weight?, he] at hedge
    exact Option.some.inj hedge
  -- Induction on the stops: the first step leads to the first stop, and the trail from there on has
  -- one stop less.
  generalize hstops : c.stops = stops at h
  induction stops generalizing i c steps with
  | nil =>
    obtain _ | ⟨he, hrest⟩ := h
    obtain _ | _ := hrest
    simpa using hweight hij hc hstops he
  | cons x rest ih =>
    obtain _ | ⟨he, hrest⟩ := h
    obtain ⟨-, a, b, ha, hb, hnil, hrests, hsum⟩ :=
      hsound.split hc (hstops.trans (List.nil_append _).symm)
    have hx : x ∈ c.stops := by simp [hstops]
    have hix : i ≠ x := fun h => hsound.not_mem_left hc (h ▸ hx)
    have hxj : x ≠ j := fun h => hsound.not_mem_right hc (h ▸ hx)
    have hfirst := hweight hix ha hnil he
    have hlater := ih hxj hb hrests hrest
    rw [List.map_cons, List.sum_cons, hlater, ← hsum, hfirst]

/-! ## Connected nodes -/

/-- Two nodes that an edge connects. -/
def Adjacent (g : JoinGraph) (i j : g.Node) : Prop :=
  ∃ e ∈ g.edges, e.Connects i j

/-- A trail to a further node is found wherever an edge leads. -/
private theorem exists_trail_of_adjacent {i j k : g.Node} {c : Trail g.names.length}
    (hc : g.trails i j = some c) (hjk : g.Adjacent j k) : ∃ c', g.trails i k = some c' := by
  obtain ⟨e, he, hconnects⟩ := hjk
  obtain ⟨e', he'⟩ := exists_direct? he hconnects
  obtain ⟨b, hb, -⟩ := (sound_trails g).le_edge (i := j) (j := k) (by rw [weight?, he']; rfl)
  obtain ⟨c', hc', -⟩ := (sound_trails g).triangle (by simp) hc hb
  exact ⟨c', hc'⟩

/-- The nodes along a trail are connected. -/
private theorem adjacent_of_trail {i j : g.Node} {c : Trail g.names.length}
    (hc : g.trails i j = some c) : Relation.ReflTransGen g.Adjacent i j := by
  have hsound := sound_trails g
  -- Induction on the stops: the first of them is reached by a direct edge, and the trail from there
  -- on has one stop less.
  generalize hstops : c.stops = stops
  induction stops generalizing i c with
  | nil =>
    by_cases hij : i = j
    · rw [hij]
    · obtain ⟨e, he⟩ := exists_direct?_of_stops_eq_nil hij hc hstops
      exact .single ⟨e, mem_of_direct? he⟩
  | cons x rest ih =>
    obtain ⟨-, a, b, ha, hb, hnil, hrest, -⟩ :=
      hsound.split hc (hstops.trans (List.nil_append _).symm)
    have hix : i ≠ x := fun h => hsound.not_mem_left hc (by simp [hstops, h])
    obtain ⟨e, he⟩ := exists_direct?_of_stops_eq_nil hix ha hnil
    exact .head ⟨e, mem_of_direct? he⟩ (ih hb hrest)

/-- Two nodes have a trail exactly where edges connect them. -/
theorem exists_trail_iff (i j : g.Node) :
    (∃ c, g.trails i j = some c) ↔ Relation.ReflTransGen g.Adjacent i j := by
  constructor
  · rintro ⟨c, hc⟩
    exact adjacent_of_trail hc
  · intro h
    induction h with
    | refl => exact ⟨_, (sound_trails g).self i⟩
    | tail _ hjk ih =>
      obtain ⟨c, hc⟩ := ih
      exact exists_trail_of_adjacent hc hjk

/-! ## Distances -/

/-- The weight of the cheapest path between two nodes. -/
def distance (g : JoinGraph) (i j : g.Node) : Nat :=
  ((g.trails i j).map (·.distance)).getD 0

/-- A path leads from one node to another. -/
def Reaches (g : JoinGraph) (i j : g.Node) : Prop :=
  ∃ c, g.trails i j = some c

/-- A node on a cheapest path between two others. -/
structure Between (g : JoinGraph) (i x j : g.Node) : Prop where
  left : g.Reaches i x
  right : g.Reaches x j
  sum : g.distance i x + g.distance x j = g.distance i j

/-- The distance of two nodes is the length of their trail. -/
theorem distance_eq {i j : g.Node} {c : Trail g.names.length} (hc : g.trails i j = some c) :
    g.distance i j = c.distance := by
  rw [distance, hc]
  rfl

/-- A way leads back. -/
theorem Reaches.symm {i j : g.Node} (h : g.Reaches i j) : g.Reaches j i := by
  obtain ⟨c, hc⟩ := h
  exact ⟨_, (sound_trails g).symm hc⟩

/-- The distance is the same in both directions. -/
theorem distance_comm (i j : g.Node) : g.distance i j = g.distance j i := by
  cases hc : g.trails i j with
  | some c => rw [distance_eq hc, distance_eq ((sound_trails g).symm hc), Trail.reverse_distance]
  | none =>
    cases hc' : g.trails j i with
    | none => rw [distance, distance, hc, hc']
    | some c' =>
      rw [(sound_trails g).symm hc'] at hc
      cases hc

/-- A node is at no distance from itself. -/
theorem distance_self (i : g.Node) : g.distance i i = 0 :=
  distance_eq ((sound_trails g).self i)

/-- Where edges have a cost, so have the paths between different nodes. -/
theorem distance_pos (hg : g.Regular) {i j : g.Node} (hij : i ≠ j) (h : g.Reaches i j) :
    0 < g.distance i j := by
  obtain ⟨c, hc⟩ := h
  have hsound := sound_trails g
  have hcost {x : g.Node} {a : Trail g.names.length} (hix : i ≠ x) (ha : g.trails i x = some a)
      (hstops : a.stops = []) : 0 < a.distance := by
    obtain ⟨e, he, hweight⟩ := Option.map_eq_some_iff.1 (hsound.edge hix ha hstops)
    exact hweight ▸ hg.positive e (mem_of_direct? he).1
  rw [distance_eq hc]
  -- The first edge of a path already has a cost.
  cases hstops : c.stops with
  | nil => exact hcost hij hc hstops
  | cons x rest =>
    obtain ⟨-, a, b, ha, -, hnil, -, hsum⟩ :=
      hsound.split hc (hstops.trans (List.nil_append _).symm)
    have hix : i ≠ x := fun h => hsound.not_mem_left hc (by simp [hstops, h])
    have hfirst := hcost hix ha hnil
    omega

/-- A detour is no cheaper than the cheapest path. -/
theorem distance_triangle {i x j : g.Node} (hix : g.Reaches i x) (hxj : g.Reaches x j) :
    g.distance i j ≤ g.distance i x + g.distance x j := by
  obtain ⟨a, ha⟩ := hix
  obtain ⟨b, hb⟩ := hxj
  obtain ⟨c, hc, hle⟩ := (sound_trails g).triangle (by simp) ha hb
  rwa [distance_eq ha, distance_eq hb, distance_eq hc]

/-- Two ways make one. -/
theorem Reaches.trans {i x j : g.Node} (hix : g.Reaches i x) (hxj : g.Reaches x j) :
    g.Reaches i j := by
  rw [Reaches, exists_trail_iff] at *
  exact Relation.ReflTransGen.trans hix hxj

/-- The cheapest path between the ends of an edge is no dearer than the edge. -/
theorem distance_le_weight {i j : g.Node} {e : JoinEdge g.names.length} (he : e ∈ g.edges)
    (hconnects : e.Connects i j) : g.Reaches i j ∧ g.distance i j ≤ e.weight := by
  obtain ⟨e', he'⟩ := exists_direct? he hconnects
  obtain ⟨c, hc, hle⟩ := (sound_trails g).le_edge (i := i) (j := j) (by rw [weight?, he']; rfl)
  exact ⟨⟨c, hc⟩, by
    rw [distance_eq hc]
    exact Nat.le_trans hle (weight_le_of_direct? he' he hconnects)⟩

/-- What lies between two nodes lies between them on the way back. -/
theorem Between.symm {i x j : g.Node} (h : g.Between i x j) : g.Between j x i := by
  refine ⟨h.right.symm, h.left.symm, ?_⟩
  rw [distance_comm j x, distance_comm x i, distance_comm j i, Nat.add_comm]
  exact h.sum

/-- The nodes of a trail are on a cheapest path. -/
theorem between_of_mem {i x j : g.Node} {c : Trail g.names.length} (hc : g.trails i j = some c)
    (hx : x ∈ i :: c.stops ++ [j]) : g.Between i x j := by
  have hsound := sound_trails g
  rw [List.mem_append, List.mem_cons, List.mem_singleton] at hx
  rcases hx with (rfl | hx) | rfl
  · exact ⟨⟨_, hsound.self x⟩, ⟨c, hc⟩, by rw [distance_self, Nat.zero_add]⟩
  · obtain ⟨us, vs, hstops⟩ := List.append_of_mem hx
    -- A stop splits the trail into two trails whose distances add up.
    obtain ⟨-, a, b, ha, hb, -, -, hsum⟩ := hsound.split hc hstops
    exact ⟨⟨a, ha⟩, ⟨b, hb⟩, by rw [distance_eq ha, distance_eq hb, distance_eq hc, hsum]⟩
  · exact ⟨⟨c, hc⟩, ⟨_, hsound.self x⟩, by rw [distance_self, Nat.add_zero]⟩

end JoinGraph

end MetricLayer
