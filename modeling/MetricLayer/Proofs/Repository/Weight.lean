import MetricLayer.Proofs.JoinGraph.Tour
import MetricLayer.Proofs.Repository.JoinTree

/-!
# The weight of join trees

A join tree is at most twice as heavy as any set of declared joins that connects the requested
models. The joins of the tree weigh no more than the chosen links are long
(`JoinGraph.sum_weights_le`), these no more than a tour of the requested models, and that no more
than twice the connecting joins.
-/

namespace MetricLayer

namespace JoinGraph

variable {g : JoinGraph}

/-! ## The weight of steps -/

/-- Growing a tree adds at most the weight of each step. -/
private theorem sum_foldl_addStep_le (weight : Nat → Nat) (t : JoinTree) (steps : List g.Step) :
    (((steps.foldl g.addStep t).edges.map (·.join)).map weight).sum ≤
      ((t.edges.map (·.join)).map weight).sum + ((steps.map (·.edge.join)).map weight).sum := by
  induction steps generalizing t with
  | nil => simp
  | cons s rest ih =>
    have hle := ih (g.addStep t s)
    -- A step whose join is there adds nothing, any other its join.
    have hstep : (((g.addStep t s).edges.map (·.join)).map weight).sum ≤
        ((t.edges.map (·.join)).map weight).sum + weight s.edge.join := by
      rw [addStep]
      split_ifs
      · omega
      · simp
    simp only [List.foldl_cons, List.map_cons, List.sum_cons]
    omega

/-- The joins of a tree that has grown along the trails of some links weigh no more than the links
are long, whatever joins the trails share. -/
theorem sum_weights_le {nodes : List g.Node} (hnodes : nodes.Nodup)
    {paths : List (List g.Step)} (hpaths : List.Forall₂ g.TrailSteps (g.chosenLinks nodes) paths)
    (weight : Nat → Nat) (hweight : ∀ e ∈ g.edges, weight e.join = e.weight)
    (requested : List String) :
    (((paths.flatten.foldl g.addStep ⟨requested, []⟩).edges.map (·.join)).map weight).sum ≤
      ((g.chosenLinks nodes).map (·.distance)).sum := by
  have hsteps : ((paths.flatten.map (·.edge.join)).map weight).sum =
      ((g.chosenLinks nodes).map (·.distance)).sum := by
    -- A link is as long as the steps along its trail weigh. A step that two trails share counts
    -- twice here, once in the tree.
    have hlinks : ∀ l ∈ g.chosenLinks nodes, (l.source, l.target) ∈ pairs nodes ∧
        l.distance = g.distance l.source l.target := by
      intro l hl
      obtain ⟨p, hp, rfl⟩ := List.mem_map.1 (List.mem_mergeSort.1 (mem_of_mem_spanning hl))
      exact ⟨hp, rfl⟩
    generalize g.chosenLinks nodes = links at hpaths hlinks
    induction hpaths with
    | nil => rfl
    | @cons l steps links paths htrail _ ih =>
      obtain ⟨⟨hpair, hdistance⟩, hrest⟩ := List.forall_mem_cons.1 hlinks
      obtain ⟨c, hc, hfollows⟩ := htrail
      have hne : l.source ≠ l.target := ne_of_mem_pairs hnodes hpair
      have hfirst : ((steps.map (·.edge.join)).map weight).sum = l.distance := by
        rw [hdistance, distance_eq hc, ← hfollows.sum_weights hne hc, List.map_map]
        congr 1
        refine List.map_congr_left fun s hs => ?_
        exact hweight _ (mem_of_direct? (hfollows.direct?_eq hs)).1
      rw [List.flatten_cons, List.map_append, List.map_append, List.sum_append, hfirst, ih hrest,
        List.map_cons, List.sum_cons]
  have hle := sum_foldl_addStep_le weight ⟨requested, []⟩ paths.flatten
  rw [hsteps] at hle
  simpa using hle

end JoinGraph

namespace Repository

variable {r : Repository}

/-! ## Joins that connect models -/

/-- The declared joins of a tree. -/
def joinsOf? (r : Repository) (t : JoinTree) : Option (List Join) :=
  t.edges.mapM fun e => r.join? e.join

/-- Two models that one of the given declared joins relates, in either direction. -/
def JoinedBy (r : Repository) (chosen : Finset (Fin r.joins.length)) (a b : String) : Prop :=
  ∃ i ∈ chosen, ((r.joins.get i).origin = a ∧ (r.joins.get i).target = b) ∨
    ((r.joins.get i).origin = b ∧ (r.joins.get i).target = a)

/-- Two models that the given declared joins connect. -/
def ConnectedBy (r : Repository) (chosen : Finset (Fin r.joins.length)) : String → String → Prop :=
  Relation.ReflTransGen (r.JoinedBy chosen)

/-- Models that declared joins connect are those of nodes that the edges of the joins connect. -/
private theorem Valid.adjacentBy_of_connectedBy (h : r.Valid) {chosen : Finset (Fin r.joins.length)}
    {edge : Fin r.joins.length → JoinEdge r.graph.names.length}
    (hedge : ∀ i, r.graph.name (edge i).origin = (r.joins.get i).origin ∧
      r.graph.name (edge i).target = (r.joins.get i).target) {u v : r.graph.Node}
    (huv : r.ConnectedBy chosen (r.graph.name u) (r.graph.name v)) :
    Relation.ReflTransGen (JoinGraph.AdjacentBy edge chosen) u v := by
  have hinjective := h.regular.name_injective
  -- Every model that is met on the way is that of a node, the end of an edge.
  have hnode : ∀ b, r.ConnectedBy chosen (r.graph.name u) b → ∃ w, r.graph.name w = b ∧
      Relation.ReflTransGen (JoinGraph.AdjacentBy edge chosen) u w := by
    intro b hb
    induction hb with
    | refl => exact ⟨u, rfl, .refl⟩
    | tail _ hstep ih =>
      obtain ⟨w, rfl, hw⟩ := ih
      obtain ⟨i, hi, hends⟩ := hstep
      obtain ⟨horigin, htarget⟩ := hedge i
      rcases hends with ⟨hw', rfl⟩ | ⟨rfl, hw'⟩
      · refine ⟨(edge i).target, htarget, hw.tail ⟨i, hi, .inl ⟨?_, rfl⟩⟩⟩
        exact hinjective (horigin.trans hw')
      · refine ⟨(edge i).origin, horigin, hw.tail ⟨i, hi, .inr ⟨rfl, ?_⟩⟩⟩
        exact hinjective (htarget.trans hw')
  obtain ⟨w, hw, hreach⟩ := hnode _ huv
  rwa [← hinjective hw]

/-- The joins of a tree are declared, and their weights are those at their positions. -/
private theorem exists_joinsOf? {requested : List String} {t : JoinTree}
    (htree : r.graph.joinTree requested = .ok t) : ∃ js, r.joinsOf? t = some js ∧
      js.map Join.weight = (t.edges.map (·.join)).map
        fun i => ((r.join? i).map Join.weight).getD 0 := by
  have hdeclared := declared_of_joinTree htree
  rw [joinsOf?]
  generalize t.edges = edges at hdeclared
  -- Induction on the edges: every edge has a declared join at its position.
  induction edges with
  | nil => exact ⟨[], rfl, rfl⟩
  | cons e rest ih =>
    obtain ⟨⟨j, hj, -⟩, hrest⟩ := List.forall_mem_cons.1 hdeclared
    obtain ⟨js, hjs, hweights⟩ := ih hrest
    refine ⟨j :: js, ?_, ?_⟩
    · rw [List.mapM_cons, hj, hjs]
      rfl
    · rw [List.map_cons, List.map_cons, List.map_cons, hj, hweights]
      rfl

/-- A join tree is at most twice as heavy as any declared joins that connect the requested
models. -/
theorem joinTree_weight_le_two_mul {models : List Model} {joins : List Join}
    (h : build models joins = .ok r) {requested : List String} {t : JoinTree}
    (htree : r.graph.joinTree requested = .ok t) (chosen : Finset (Fin r.joins.length))
    (hchosen : ∀ a ∈ requested, ∀ b ∈ requested, r.ConnectedBy chosen a b) :
    ∃ js, r.joinsOf? t = some js ∧
      (js.map Join.weight).sum ≤ 2 * ∑ i ∈ chosen, (r.joins.get i).weight := by
  have hvalid := valid_of_build h
  obtain ⟨js, hjs, hweights⟩ := exists_joinsOf? htree
  refine ⟨js, hjs, ?_⟩
  rw [hweights]
  obtain ⟨nodes, paths, hnames, hpaths, rfl, -⟩ := JoinGraph.exists_grown_of_joinTree htree
  have hnodup : nodes.Nodup := List.Nodup.of_map r.graph.name (hnames ▸ nodup_distinct requested)
  have hrequested {u : r.graph.Node} (hu : u ∈ nodes) : r.graph.name u ∈ requested := by
    rw [← mem_distinct, ← hnames]
    exact List.mem_map_of_mem hu
  have htree := JoinGraph.sum_weights_le hnodup hpaths
    (fun i => ((r.join? i).map Join.weight).getD 0) (fun e he => by
      obtain ⟨j, hj, -, -, hweight⟩ := join?_of_mem_edges he
      rw [hj, hweight]
      rfl) (distinct requested)
  -- Each declared join is an edge of the graph, with its weight.
  have hedges (i : Fin r.joins.length) := hvalid.exists_edge_at (List.getElem?_eq_getElem i.isLt)
  choose edge hedge horigin htarget hweight using hedges
  refine htree.trans ?_
  cases nodes with
  | nil => simp [JoinGraph.chosenLinks, pairs, JoinGraph.spanning]
  | cons start rest =>
    have hlinked : ∀ v ∈ start :: rest,
        Relation.ReflTransGen (JoinGraph.AdjacentBy edge chosen) start v := fun v hv =>
      hvalid.adjacentBy_of_connectedBy (fun i => ⟨horigin i, htarget i⟩)
        (hchosen _ (hrequested List.mem_cons_self) _ (hrequested hv))
    obtain ⟨tour, hreaches, hall, hpaid⟩ := JoinGraph.exists_tour edge hedge hlinked
    -- Models that were not requested are left out of the tour.
    let visited := tour.filter (· ∈ start :: rest)
    have hvisited : start :: visited ⊆ start :: rest :=
      List.cons_subset.2 ⟨List.mem_cons_self, fun v hv => by simpa using List.of_mem_filter hv⟩
    have hcovers : start :: rest ⊆ start :: visited := by
      intro v hv
      rcases List.mem_cons.1 (hall hv) with rfl | htour
      · exact List.mem_cons_self
      · exact List.mem_cons_of_mem _ (List.mem_filter.2 ⟨htour, by simpa using hv⟩)
    calc ((r.graph.chosenLinks (start :: rest)).map (·.distance)).sum
        ≤ (r.graph.legs start visited).sum :=
          JoinGraph.sum_chosenLinks_le hvisited hcovers
      _ ≤ (r.graph.legs start tour).sum :=
          JoinGraph.sum_legs_le_of_sublist List.filter_sublist hreaches
      _ ≤ 2 * ∑ i ∈ chosen, (edge i).weight := hpaid
      _ = 2 * ∑ i ∈ chosen, (r.joins.get i).weight := by
          simp only [hweight, List.get_eq_getElem]

/-- Three models in a row, each also joined to a hub. A join along the row costs 20, one to the hub
10. -/
private def row : Repository where
  models := ["a", "b", "c", "hub"].map fun name =>
    ⟨name, .table name, [{ name := "id", primaryKey := true }], []⟩
  joins :=
    [("a", "b"), ("b", "c")].map (fun (m, n) =>
      { origin := m, target := n, cardinality := .manyToOne, condition := fun _ => [] }) ++
    ["a", "b", "c"].map fun m =>
      { origin := m, target := "hub", cardinality := .oneToOne, condition := fun _ => [] }

/-- The tree takes a join of the row beside two to the hub, at a cost of 40, where the joins to the
hub alone would have cost 30. -/
theorem joinTree_weight_le_two_mul_row : build row.models row.joins = .ok row ∧ ∃ t js,
    row.graph.joinTree ["a", "b", "c"] = .ok t ∧ row.joinsOf? t = some js ∧
    (js.map Join.weight).sum = 40 ∧ (js.map Join.weight).sum ≤ 2 * 30 := by
  have hbuild : build row.models row.joins = .ok row := rfl
  have htree : row.graph.joinTree ["a", "b", "c"] =
      .ok ⟨["a", "b", "c", "hub"], [⟨"a", "b", 0⟩, ⟨"a", "hub", 2⟩, ⟨"hub", "c", 4⟩]⟩ := by
    simp only [JoinGraph.joinTree, JoinGraph.mergeSort_links_eq_insertionSort]
    decide +kernel
  let hub : Finset (Fin row.joins.length) := {⟨2, by decide⟩, ⟨3, by decide⟩, ⟨4, by decide⟩}
  have hhub : ∀ a ∈ ["a", "b", "c"], row.JoinedBy hub a "hub" := by
    simp only [List.forall_mem_cons, List.not_mem_nil, false_implies, implies_true, and_true]
    exact ⟨⟨⟨2, by decide⟩, by simp [hub], .inl ⟨rfl, rfl⟩⟩,
      ⟨⟨3, by decide⟩, by simp [hub], .inl ⟨rfl, rfl⟩⟩,
      ⟨⟨4, by decide⟩, by simp [hub], .inl ⟨rfl, rfl⟩⟩⟩
  have hconnected : ∀ a ∈ ["a", "b", "c"], ∀ b ∈ ["a", "b", "c"], row.ConnectedBy hub a b := by
    intro a ha b hb
    obtain ⟨i, hi, hends⟩ := hhub b hb
    exact .trans (.single (hhub a ha)) (.single ⟨i, hi, hends.symm⟩)
  obtain ⟨js, hjs, hle⟩ := joinTree_weight_le_two_mul hbuild htree hub hconnected
  refine ⟨hbuild, _, js, htree, hjs, ?_, hle⟩
  obtain rfl := Option.some.inj (hjs.symm.trans rfl)
  rfl

end Repository

end MetricLayer
