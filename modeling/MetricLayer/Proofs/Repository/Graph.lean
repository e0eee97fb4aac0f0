import MetricLayer.Proofs.Distinct
import MetricLayer.Proofs.JoinGraph.Basic
import MetricLayer.Proofs.Repository.Member

/-!
# The declarations of a repository

A repository is built of well-formed declarations only, and then shows them: the graph has a node
for each model and an edge for each join, and a model is found by its name.

- `Repository.Depicts` — a graph with the declared models as nodes and the declared joins as edges;
- `Repository.depicts_graph` — the graph of a repository that was built;
- `Repository.model?_eq_some_iff` — models are found by their names;
- `Repository.build_wellFormed` — which declarations are accepted, and what becomes of them.
-/

namespace MetricLayer

namespace Repository

/-- The nodes of a graph are the models, and its edges are the joins in the order in which they are
declared. No edge leads back to its node, and no two edges have the same ends. -/
structure Depicts (g : JoinGraph) (models : List Model) (joins : List Join) : Prop where
  names : g.names = models.map (·.name)
  node : ∀ i : g.Node, g.node? (g.name i) = some i
  edges : List.Forall₂ (fun j e => g.name e.origin = j.1.origin ∧ g.name e.target = j.1.target ∧
    e.weight = j.1.weight ∧ e.join = j.2) joins.zipIdx g.edges
  noLoop : ∀ e ∈ g.edges, e.origin ≠ e.target
  noParallel : g.edges.Pairwise fun e e' => ¬ e.Connects e'.origin e'.target

variable {r : Repository}

/-- The edges of the graph are those of the joins, one by one. -/
private theorem forall₂_edges (h : r.Valid) :
    List.Forall₂ (fun j e => r.graph.name e.origin = j.1.origin ∧
      r.graph.name e.target = j.1.target ∧ e.weight = j.1.weight ∧ e.join = j.2)
      r.joins.zipIdx r.graph.edges := by
  have hedges : List.Forall₂ (fun j e => JoinEdge.ofJoin? r.graph.names j.1 j.2 = some e)
      r.joins.zipIdx r.graph.edges :=
    forall₂_filterMap fun j hj => h.exists_ofJoin? (List.fst_mem_of_mem_zipIdx hj) j.2
  exact hedges.imp fun _ _ hj => edge_ofJoin? hj

/-- The edges join the pairs of models that the joins relate. -/
private theorem map_pair_edges (h : r.Valid) :
    (r.graph.edges.map fun e => s(r.graph.name e.origin, r.graph.name e.target)) =
      r.joins.map fun j => s(j.origin, j.target) := by
  have hzip : r.joins.map (fun j => s(j.origin, j.target)) =
      r.joins.zipIdx.map fun j => s(j.1.origin, j.1.target) := by
    conv_lhs => rw [← List.zipIdx_map_fst 0 r.joins, List.map_map]
    rfl
  rw [hzip, eq_comm]
  apply map_eq_map_of_forall₂
  exact (forall₂_edges h).imp fun _ _ ⟨horigin, htarget, _⟩ => by rw [horigin, htarget]

/-- The graph of a repository shows its models and joins. -/
theorem depicts_graph (h : WellFormed r.models r.joins) : Depicts r.graph r.models r.joins := by
  have hvalid : r.Valid := ⟨h.modelsApart, h.declared⟩
  refine ⟨rfl, ?_, forall₂_edges hvalid, ?_, ?_⟩
  · -- A node is found by its name, and no other node has this name.
    intro i
    have hname : r.graph.name i ∈ r.graph.names := List.get_mem ..
    obtain ⟨k, hk⟩ := Option.ne_none_iff_exists'.1
      (mt JoinGraph.node?_eq_none_iff.1 (not_not.2 hname))
    rw [hk, hvalid.regular.name_injective (JoinGraph.name_of_node? hk)]
  · -- A loop would be a join of a model with itself.
    intro e he hloop
    obtain ⟨j, hj, horigin, htarget, -⟩ := join?_of_mem_edges he
    apply h.endsApart j (List.mem_of_getElem? hj)
    rw [← horigin, ← htarget, hloop]
  · -- Parallel edges would be two joins of the same models.
    have hnodup := h.joinsApart
    rw [← map_pair_edges hvalid] at hnodup
    refine (List.pairwise_map.1 hnodup).imp fun {e e'} hne hconnects => hne ?_
    obtain ⟨horigin, htarget⟩ | ⟨horigin, htarget⟩ := hconnects
    · rw [horigin, htarget]
    · rw [horigin, htarget, Sym2.eq_swap]

/-- A model is found by its name, and nothing else is. -/
theorem model?_eq_some_iff (h : (r.models.map (·.name)).Nodup) {name : String} {m : Model} :
    r.model? name = some m ↔ m ∈ r.models ∧ m.name = name := by
  constructor
  · exact fun hm => ⟨List.mem_of_find?_eq_some hm, name_of_model? hm⟩
  · rintro ⟨hm, rfl⟩
    exact find?_key_eq_some h hm

/-- A repository is built exactly of well-formed declarations. Its graph shows the models and joins,
and every model is found by its name. -/
theorem build_wellFormed (models : List Model) (joins : List Join) :
    ((∃ r, build models joins = .ok r) ↔ WellFormed models joins) ∧
      ∀ r, build models joins = .ok r → r.models = models ∧ r.joins = joins ∧
        Depicts r.graph models joins ∧
        ∀ name m, r.model? name = some m ↔ m ∈ models ∧ m.name = name := by
  refine ⟨⟨?_, ?_⟩, ?_⟩
  · rintro ⟨r, hr⟩
    exact (build_eq_ok_iff.1 hr).1
  · intro h
    exact ⟨⟨models, joins⟩, build_eq_ok_iff.2 ⟨h, rfl⟩⟩
  · intro r hr
    obtain ⟨h, rfl⟩ := build_eq_ok_iff.1 hr
    exact ⟨rfl, rfl, depicts_graph h, fun name m => model?_eq_some_iff h.modelsApart⟩

/-- A model with one dimension, which is its primary key. -/
private def plainModel (name : String) : Model where
  name := name
  source := .table name
  dimensions := [{ name := "id", primaryKey := true }]

/-- A join of two models. -/
private def plainJoin (origin target : String) : Join where
  origin := origin
  target := target
  cardinality := .manyToOne
  condition := fun _ => []

/-- A join that is declared again in the other direction makes the declarations ill-formed. -/
theorem build_wellFormed_orders :
    Depicts (Repository.graph ⟨[plainModel "orders", plainModel "users"],
        [plainJoin "orders" "users"]⟩)
      [plainModel "orders", plainModel "users"] [plainJoin "orders" "users"] ∧
    ¬ WellFormed [plainModel "orders", plainModel "users"]
      [plainJoin "orders" "users", plainJoin "users" "orders"] := by
  obtain ⟨-, hbuilt⟩ :=
    build_wellFormed [plainModel "orders", plainModel "users"] [plainJoin "orders" "users"]
  obtain ⟨hiff, -⟩ := build_wellFormed [plainModel "orders", plainModel "users"]
    [plainJoin "orders" "users", plainJoin "users" "orders"]
  refine ⟨(hbuilt _ rfl).2.2.1, fun h => ?_⟩
  obtain ⟨r, hr⟩ := hiff.2 h
  have herror : build [plainModel "orders", plainModel "users"]
      [plainJoin "orders" "users", plainJoin "users" "orders"] =
        .error (.duplicateJoin "users" "orders") := rfl
  rw [herror] at hr
  cases hr

end Repository

end MetricLayer
