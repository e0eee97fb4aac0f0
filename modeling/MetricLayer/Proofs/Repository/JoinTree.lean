import MetricLayer.Proofs.JoinGraph.JoinTree

/-!
# Join trees of a repository

For each request a validated repository has one of three outcomes, in terms of the declared models
and joins alone: the first unknown name, the first pair of models that no joins connect, or a
connected tree of declared joins over the requested models.
-/

namespace MetricLayer

/-- A tree of declared joins over the requested models. -/
structure JoinTree.Spans (t : JoinTree) (r : Repository) (requested : List String) : Prop where
  /-- The requested models come first, each once. -/
  first : (distinct requested).IsPrefix t.models
  models : t.models.Nodup
  joins : (t.edges.map (·.join)).Nodup
  /-- An edge connects the two models of the declared join at its position. -/
  declared : ∀ e ∈ t.edges, ∃ j, r.join? e.join = some j ∧
    ((e.origin = j.origin ∧ e.target = j.target) ∨ (e.origin = j.target ∧ e.target = j.origin))
  ends : ∀ e ∈ t.edges, e.origin ∈ t.models ∧ e.target ∈ t.models
  /-- All models are reached from the first one over the edges. -/
  connected : ∀ first ∈ t.models.head?, ∀ m ∈ t.models, t.Linked first m

/-- What a request for a join tree gives. -/
inductive Repository.TreeOutcome (r : Repository) (requested : List String) :
    Result JoinTree → Prop
  /-- The first requested name that is not a model. -/
  | unknownModel {name : String}
      (hfirst : requested.find? (· ∉ r.models.map (·.name)) = some name) :
      TreeOutcome r requested (.error (.unknownModel name))
  /-- The first pair of requested models, in the order of their positions, that no joins connect. -/
  | noPath {i j : Nat} {a b : String} (hknown : ∀ n ∈ requested, n ∈ r.models.map (·.name))
      (hij : i < j) (hi : (distinct requested)[i]? = some a)
      (hj : (distinct requested)[j]? = some b)
      (hapart : ¬r.Connected a b)
      (hfirst : ∀ (i' j' : Nat) (a' b' : String), i' < j' → (i' < i ∨ i' = i ∧ j' < j) →
        (distinct requested)[i']? = some a' → (distinct requested)[j']? = some b' →
        r.Connected a' b') :
      TreeOutcome r requested (.error (.noPath a b))
  /-- A tree where all requested models are known and connected. -/
  | tree {t : JoinTree} (hknown : ∀ n ∈ requested, n ∈ r.models.map (·.name))
      (hconnected : ∀ a ∈ requested, ∀ b ∈ requested, r.Connected a b)
      (hspans : t.Spans r requested) : TreeOutcome r requested (.ok t)

namespace Repository

variable {r : Repository}

/-! ## Connected models -/

/-- Being connected does not depend on the direction. -/
theorem connected_symm {a b : String} (h : r.Connected a b) : r.Connected b a := by
  induction h with
  | refl => exact .refl
  | tail _ hbc ih =>
    obtain ⟨j, hj, hends⟩ := hbc
    exact .head ⟨j, hj, hends.symm⟩ ih

/-- Adjacent nodes have joined models. -/
private theorem joined_of_adjacent {i j : r.graph.Node} (h : r.graph.Adjacent i j) :
    r.Joined (r.graph.name i) (r.graph.name j) := by
  obtain ⟨e, he, hconnects⟩ := h
  obtain ⟨join, hjoin, horigin, htarget, -⟩ := join?_of_mem_edges he
  refine ⟨join, List.mem_of_getElem? hjoin, ?_⟩
  rcases hconnects with ⟨rfl, rfl⟩ | ⟨rfl, rfl⟩
  · exact .inl ⟨horigin.symm, htarget.symm⟩
  · exact .inr ⟨horigin.symm, htarget.symm⟩

/-- A joined model is that of an adjacent node. -/
private theorem Valid.exists_adjacent (h : r.Valid) {i : r.graph.Node} {b : String}
    (hjoined : r.Joined (r.graph.name i) b) : ∃ j, r.graph.Adjacent i j ∧ r.graph.name j = b := by
  obtain ⟨join, hjoin, hends⟩ := hjoined
  obtain ⟨e, he, horigin, htarget⟩ := h.exists_edge hjoin
  have hinjective := h.regular.name_injective
  rcases hends with ⟨hi, rfl⟩ | ⟨rfl, hi⟩
  · exact ⟨e.target, ⟨e, he, .inl ⟨hinjective (horigin.trans hi), rfl⟩⟩, htarget⟩
  · exact ⟨e.origin, ⟨e, he, .inr ⟨rfl, hinjective (htarget.trans hi)⟩⟩, horigin⟩

/-- Joins connect two models exactly where a path leads from one to the other. -/
theorem Valid.connected_iff (h : r.Valid) (i j : r.graph.Node) :
    r.Connected (r.graph.name i) (r.graph.name j) ↔ r.graph.Reaches i j := by
  rw [JoinGraph.Reaches, JoinGraph.exists_trail_iff]
  constructor
  · intro hconnected
    -- Along a sequence of joins every model met is that of a node, since joins lead between
    -- declared models.
    have hnode : ∀ b, r.Connected (r.graph.name i) b →
        ∃ k, r.graph.name k = b ∧ Relation.ReflTransGen r.graph.Adjacent i k := by
      intro b hb
      induction hb with
      | refl => exact ⟨i, rfl, .refl⟩
      | tail _ hstep ih =>
        obtain ⟨k, rfl, hk⟩ := ih
        obtain ⟨k', hadjacent, hname⟩ := h.exists_adjacent hstep
        exact ⟨k', hname, hk.tail hadjacent⟩
    obtain ⟨k, hname, hk⟩ := hnode _ hconnected
    rwa [← h.regular.name_injective hname]
  · intro hreach
    induction hreach with
    | refl => exact .refl
    | tail _ hstep ih => exact ih.tail (joined_of_adjacent hstep)

/-! ## Outcomes -/

/-- The edges of a grown tree are declared joins. -/
private theorem declared_of_grown {requested : List String} {steps : List r.graph.Step}
    {t : JoinTree} (hgrown : r.graph.Grown requested steps t)
    (hdirect : ∀ s ∈ steps, r.graph.direct? s.source s.target = some s.edge) :
    ∀ e ∈ t.edges, ∃ j, r.join? e.join = some j ∧
      ((e.origin = j.origin ∧ e.target = j.target) ∨
        (e.origin = j.target ∧ e.target = j.origin)) := by
  intro e he
  obtain ⟨s, hs, rfl⟩ := hgrown.edge e he
  obtain ⟨hmem, hconnects⟩ := JoinGraph.mem_of_direct? (hdirect s hs)
  obtain ⟨j, hj, horigin, htarget, -⟩ := join?_of_mem_edges hmem
  refine ⟨j, hj, ?_⟩
  rcases hconnects with ⟨hsource, hend⟩ | ⟨hend, hsource⟩
  · exact .inl ⟨hsource ▸ horigin, hend ▸ htarget⟩
  · exact .inr ⟨hsource ▸ htarget, hend ▸ horigin⟩

/-- The edges of a join tree are declared joins. -/
theorem declared_of_joinTree {requested : List String} {t : JoinTree}
    (htree : r.graph.joinTree requested = .ok t) : ∀ e ∈ t.edges, ∃ j, r.join? e.join = some j ∧
      ((e.origin = j.origin ∧ e.target = j.target) ∨
        (e.origin = j.target ∧ e.target = j.origin)) := by
  obtain ⟨nodes, paths, -, hpaths, -, hgrown⟩ := JoinGraph.exists_grown_of_joinTree htree
  exact declared_of_grown hgrown fun s hs => JoinGraph.direct?_of_mem_flatten hpaths hs

/-- Every request over a validated repository has one of the three outcomes; in particular the path
of a chosen link can always be rebuilt. -/
theorem treeOutcome_joinTree {models : List Model} {joins : List Join} {r : Repository}
    (h : build models joins = .ok r) (requested : List String) :
    r.TreeOutcome requested (r.graph.joinTree requested) := by
  have hvalid := valid_of_build h
  have hg := hvalid.regular
  rcases JoinGraph.joinTree_cases requested with ⟨name, hname, herror⟩ |
    ⟨hknown, nodes, hnames, h⟩
  · rw [herror]
    exact .unknownModel hname
  rcases h with ⟨before, ⟨u, v⟩, after, hsplit, hbefore, hnot, herror⟩ |
    ⟨hreach, paths, hpaths, hok⟩
  -- The pairs are tried in the order of their positions, so all pairs before the failing one are
  -- connected.
  · obtain ⟨i, j, hij, hi, hj, hfirst⟩ := exists_positions_of_pairs_eq hsplit
    rw [herror]
    refine .noPath hknown hij (by rw [← hnames, List.getElem?_map, hi]; rfl)
      (by rw [← hnames, List.getElem?_map, hj]; rfl) (mt (hvalid.connected_iff u v).1 hnot) ?_
    intro i' j' a' b' hlt hless ha' hb'
    rw [← hnames, List.getElem?_map, Option.map_eq_some_iff] at ha' hb'
    obtain ⟨u', hu', rfl⟩ := ha'
    obtain ⟨v', hv', rfl⟩ := hb'
    exact (hvalid.connected_iff u' v').2 (hbefore _ (hfirst i' j' u' v' hlt hless hu' hv'))
  · rw [hok]
    -- The tree has grown from the requested models along the chosen paths.
    have hgrown := (JoinGraph.grown_nil r.graph (nodup_distinct requested)).foldl_addStep
      paths.flatten
    rw [List.nil_append] at hgrown
    have hmem {a : String} (ha : a ∈ requested) : ∃ u ∈ nodes, r.graph.name u = a := by
      rw [← mem_distinct, ← hnames] at ha
      simpa using ha
    refine .tree hknown (fun a ha b hb => ?_) ⟨hgrown.first, hgrown.models, hgrown.joins,
      declared_of_grown hgrown fun s hs => JoinGraph.direct?_of_mem_flatten hpaths hs,
      hgrown.ends, ?_⟩
    · -- Two requested models are one, or they form a pair in one of the two orders.
      obtain ⟨u, hu, rfl⟩ := hmem ha
      obtain ⟨v, hv, rfl⟩ := hmem hb
      by_cases huv : u = v
      · exact huv ▸ .refl
      · rcases pair_sublist_or hu hv huv with hsub | hsub
        · exact (hvalid.connected_iff u v).2 (hreach _ (mem_pairs_iff.2 hsub))
        · exact connected_symm ((hvalid.connected_iff v u).2 (hreach _ (mem_pairs_iff.2 hsub)))
    · intro first hfirst m hm
      exact JoinGraph.linked_models hg hpaths hgrown hnames (List.mem_of_mem_head? hfirst) hm

/-- Two joined models beside a third one on its own. -/
private def islands : Repository where
  models := ["a", "b", "c"].map fun name =>
    ⟨name, .table name, [{ name := "id", primaryKey := true }], []⟩
  joins := [{ origin := "a", target := "b", cardinality := .manyToOne, condition := fun _ => [] }]

/-- A request that leaves the joined models finds the first pair that is not connected. -/
theorem treeOutcome_joinTree_islands : build islands.models islands.joins = .ok islands ∧
    islands.graph.joinTree ["b", "a", "c", "b"] = .error (.noPath "b" "c") ∧
    islands.TreeOutcome ["b", "a", "c", "b"] (islands.graph.joinTree ["b", "a", "c", "b"]) := by
  have hbuild : build islands.models islands.joins = .ok islands := rfl
  exact ⟨hbuild, by decide +kernel, treeOutcome_joinTree hbuild _⟩

end Repository

end MetricLayer
