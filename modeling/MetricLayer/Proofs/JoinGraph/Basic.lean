import MetricLayer.JoinGraph.ShortestPath
import MetricLayer.Proofs.Repository.File
import Mathlib.Data.List.Nodup
import Mathlib.Logic.Relation

/-!
# The graph of a repository

What validation of a repository says about its join graph: names identify nodes, each declared join
is one edge between the nodes of its two models, and every edge has a cost. `JoinGraph.Regular`
collects what the search for paths and trees relies on.
-/

namespace MetricLayer

/-! ## Edges between two nodes -/

/-- An edge has the two given ends, in either direction. -/
def JoinEdge.Connects {n : Nat} (e : JoinEdge n) (i j : Fin n) : Prop :=
  (e.origin = i ∧ e.target = j) ∨ (e.origin = j ∧ e.target = i)

instance {n : Nat} (e : JoinEdge n) (i j : Fin n) : Decidable (e.Connects i j) :=
  inferInstanceAs (Decidable ((e.origin = i ∧ e.target = j) ∨ (e.origin = j ∧ e.target = i)))

/-- An edge connects its ends in either direction. -/
theorem JoinEdge.Connects.symm {n : Nat} {e : JoinEdge n} {i j : Fin n} (h : e.Connects i j) :
    e.Connects j i :=
  Or.symm h

/-- An edge that connects two pairs of nodes connects the same nodes. -/
theorem JoinEdge.Connects.eq_or {n : Nat} {e : JoinEdge n} {i j k l : Fin n} (h : e.Connects i j)
    (h' : e.Connects k l) : (i = k ∧ j = l) ∨ (i = l ∧ j = k) := by
  rcases h with ⟨rfl, rfl⟩ | ⟨rfl, rfl⟩ <;> rcases h' with ⟨rfl, rfl⟩ | ⟨rfl, rfl⟩ <;> simp

namespace JoinGraph

variable {g : JoinGraph}

/-- What validation grants: names are unique, edges have a cost, and each join is one edge. -/
structure Regular (g : JoinGraph) : Prop where
  names : g.names.Nodup
  positive : ∀ e ∈ g.edges, 0 < e.weight
  joins : ∀ e ∈ g.edges, ∀ e' ∈ g.edges, e.join = e'.join → e = e'

/-- The cheaper edge of several is one of them. -/
private theorem foldl_cheaper_eq_some {n : Nat} {best : Option (JoinEdge n)}
    {edges : List (JoinEdge n)} {e : JoinEdge n} (h : edges.foldl cheaper best = some e) :
    e ∈ edges ∨ best = some e := by
  induction edges generalizing best with
  | nil => exact .inr h
  | cons first rest ih =>
    rcases ih h with hrest | hbest
    · exact .inl (List.mem_cons_of_mem _ hrest)
    · unfold cheaper at hbest
      split at hbest
      · exact .inl (List.mem_cons.2 (.inl (Option.some.inj hbest).symm))
      · split_ifs at hbest
        · exact .inl (List.mem_cons.2 (.inl (Option.some.inj hbest).symm))
        · exact .inr hbest

/-- Of some edges there is a cheapest one. -/
private theorem isSome_foldl_cheaper {n : Nat} {best : Option (JoinEdge n)}
    {edges : List (JoinEdge n)} (h : best.isSome ∨ edges ≠ []) :
    (edges.foldl cheaper best).isSome := by
  induction edges generalizing best with
  | nil => simpa using h
  | cons first rest ih =>
    refine ih (.inl ?_)
    unfold cheaper
    split
    · rfl
    · split_ifs <;> rfl

/-- A direct edge is an edge of the graph between its two nodes. -/
theorem mem_of_direct? {i j : g.Node} {e : JoinEdge g.names.length} (h : g.direct? i j = some e) :
    e ∈ g.edges ∧ e.Connects i j := by
  rcases foldl_cheaper_eq_some h with hmem | hnone
  · rw [List.mem_filter] at hmem
    exact ⟨hmem.1, of_decide_eq_true hmem.2⟩
  · cases hnone

/-- Where an edge connects two nodes, they have a direct edge. -/
theorem exists_direct? {i j : g.Node} {e : JoinEdge g.names.length} (he : e ∈ g.edges)
    (hconnects : e.Connects i j) : ∃ e', g.direct? i j = some e' := by
  -- The cheapest of several edges is one of them, so one edge is enough.
  refine Option.isSome_iff_exists.1 (isSome_foldl_cheaper (.inr ?_))
  exact List.ne_nil_of_mem (List.mem_filter.2 ⟨he, decide_eq_true hconnects⟩)

/-- No edge is cheaper than the one that is kept. -/
private theorem foldl_cheaper_le {n : Nat} {best : Option (JoinEdge n)} {edges : List (JoinEdge n)}
    {e : JoinEdge n} (h : edges.foldl cheaper best = some e) :
    (∀ b, best = some b → e.weight ≤ b.weight) ∧ ∀ e' ∈ edges, e.weight ≤ e'.weight := by
  induction edges generalizing best with
  | nil =>
    refine ⟨fun b hb => ?_, nofun⟩
    obtain rfl := Option.some.inj (h.symm.trans hb)
    exact Nat.le_refl _
  | cons first rest ih =>
    obtain ⟨hbest, hrest⟩ := ih h
    -- What is kept from the first edge on is no dearer than it and than the best before it.
    cases best with
    | none => exact ⟨nofun, List.forall_mem_cons.2 ⟨hbest first rfl, hrest⟩⟩
    | some b =>
      by_cases hlt : first.weight < b.weight
      · have hfirst := hbest first (if_pos hlt)
        refine ⟨?_, List.forall_mem_cons.2 ⟨hfirst, hrest⟩⟩
        rintro _ ⟨⟩
        omega
      · have hb := hbest b (if_neg hlt)
        refine ⟨?_, List.forall_mem_cons.2 ⟨by omega, hrest⟩⟩
        rintro _ ⟨⟩
        exact hb

/-- A direct edge is no dearer than any edge between its two nodes. -/
theorem weight_le_of_direct? {i j : g.Node} {e e' : JoinEdge g.names.length}
    (h : g.direct? i j = some e) (he' : e' ∈ g.edges) (hconnects : e'.Connects i j) :
    e.weight ≤ e'.weight :=
  (foldl_cheaper_le h).2 e' (List.mem_filter.2 ⟨he', decide_eq_true hconnects⟩)

/-- A direct edge leads both ways. -/
theorem direct?_comm (i j : g.Node) : g.direct? i j = g.direct? j i := by
  rw [direct?, direct?]
  congr 1
  refine List.filter_congr fun e _ => ?_
  simp only [decide_eq_decide]
  exact or_comm

/-! ## Names -/

/-- The index that is found for a name has the name. -/
private theorem get_of_lastIndex? {names : List String} {name : String} {i : Fin names.length}
    (h : lastIndex? names name = some i) : names.get i = name := by
  simpa using List.find?_some h

/-- No index is found where the name is not there. -/
private theorem lastIndex?_eq_none_iff {names : List String} {name : String} :
    lastIndex? names name = none ↔ name ∉ names := by
  rw [lastIndex?, List.find?_eq_none]
  constructor
  · intro h hmem
    obtain ⟨i, hi⟩ := List.get_of_mem hmem
    exact h i (by simp) (by simpa using hi)
  · intro h i _ hi
    exact h (of_decide_eq_true hi ▸ List.get_mem names i)

/-- The node that is found for a name has the name. -/
theorem name_of_node? {name : String} {i : g.Node} (h : g.node? name = some i) : g.name i = name :=
  get_of_lastIndex? h

/-- No node is found for a name that is not there. -/
theorem node?_eq_none_iff {name : String} : g.node? name = none ↔ name ∉ g.names :=
  lastIndex?_eq_none_iff

/-- Different nodes have different names. -/
theorem Regular.name_injective (h : g.Regular) : Function.Injective g.name :=
  List.nodup_iff_injective_get.1 h.names

end JoinGraph

/-! ## Validation -/

namespace Repository

/-- What a validated repository grants to its join graph. -/
structure Valid (r : Repository) : Prop where
  names : (r.models.map (·.name)).Nodup
  ends : ∀ j ∈ r.joins, j.origin ∈ r.models.map (·.name) ∧ j.target ∈ r.models.map (·.name)

/-- A repository that is built is valid. -/
theorem valid_of_build {models : List Model} {joins : List Join} {r : Repository}
    (h : build models joins = .ok r) : r.Valid :=
  have hformed := wellFormed_of_build h
  ⟨hformed.modelsApart, hformed.declared⟩

/-- Two models that a declared join relates, in either direction. -/
def Joined (r : Repository) (a b : String) : Prop :=
  ∃ j ∈ r.joins, (j.origin = a ∧ j.target = b) ∨ (j.origin = b ∧ j.target = a)

/-- Two models that a sequence of declared joins connects. -/
def Connected (r : Repository) : String → String → Prop :=
  Relation.ReflTransGen r.Joined

/-- The edge of a join has its two models as ends. -/
theorem edge_ofJoin? {names : List String} {j : Join} {i : Nat} {e : JoinEdge names.length}
    (h : JoinEdge.ofJoin? names j i = some e) :
    names.get e.origin = j.origin ∧ names.get e.target = j.target ∧ e.weight = j.weight ∧
      e.join = i := by
  simp only [JoinEdge.ofJoin?, Option.bind_eq_bind, Option.pure_def, Option.bind_eq_some_iff,
    Option.some.injEq] at h
  obtain ⟨origin, horigin, target, htarget, rfl⟩ := h
  exact ⟨JoinGraph.get_of_lastIndex? horigin, JoinGraph.get_of_lastIndex? htarget, rfl, rfl⟩

/-- An edge of the graph is the declared join at its position. -/
theorem join?_of_mem_edges {r : Repository} {e : JoinEdge r.graph.names.length}
    (h : e ∈ r.graph.edges) : ∃ j, r.join? e.join = some j ∧ r.graph.name e.origin = j.origin ∧
      r.graph.name e.target = j.target ∧ e.weight = j.weight := by
  obtain ⟨⟨j, i⟩, hji, hedge⟩ := List.mem_filterMap.1 h
  obtain ⟨horigin, htarget, hweight, rfl⟩ := edge_ofJoin? hedge
  exact ⟨j, List.mk_mem_zipIdx_iff_getElem?.1 hji, horigin, htarget, hweight⟩

namespace Valid

variable {r : Repository} (h : r.Valid)

include h

/-- Every declared join has an edge. -/
theorem exists_ofJoin? {j : Join} (hj : j ∈ r.joins) (i : Nat) :
    ∃ e, JoinEdge.ofJoin? r.graph.names j i = some e := by
  obtain ⟨horigin, htarget⟩ := h.ends j hj
  obtain ⟨origin, ho⟩ := Option.ne_none_iff_exists'.1
    (mt JoinGraph.lastIndex?_eq_none_iff.1 (not_not.2 horigin))
  obtain ⟨target, ht⟩ := Option.ne_none_iff_exists'.1
    (mt JoinGraph.lastIndex?_eq_none_iff.1 (not_not.2 htarget))
  exact ⟨⟨origin, target, j.weight, i⟩, by simp [JoinEdge.ofJoin?, graph, JoinGraph.build, ho, ht]⟩

/-- The declared join at a position is an edge between its two models, of the same weight. -/
theorem exists_edge_at {i : Nat} {j : Join} (hi : r.join? i = some j) : ∃ e ∈ r.graph.edges,
    r.graph.name e.origin = j.origin ∧ r.graph.name e.target = j.target ∧
      e.weight = j.weight := by
  obtain ⟨e, he⟩ := h.exists_ofJoin? (List.mem_of_getElem? hi) i
  obtain ⟨horigin, htarget, hweight, -⟩ := edge_ofJoin? he
  exact ⟨e, List.mem_filterMap.2 ⟨(j, i), List.mk_mem_zipIdx_iff_getElem?.2 hi, he⟩, horigin,
    htarget, hweight⟩

/-- Every declared join is an edge between its two models. -/
theorem exists_edge {j : Join} (hj : j ∈ r.joins) : ∃ e ∈ r.graph.edges,
    r.graph.name e.origin = j.origin ∧ r.graph.name e.target = j.target := by
  obtain ⟨i, hi⟩ := List.mem_iff_getElem?.1 hj
  obtain ⟨e, he, horigin, htarget, -⟩ := h.exists_edge_at hi
  exact ⟨e, he, horigin, htarget⟩

/-- The graph of a validated repository is regular. -/
theorem regular : r.graph.Regular where
  names := h.names
  positive e he := by
    obtain ⟨j, -, -, -, hweight⟩ := join?_of_mem_edges he
    rw [hweight, Join.weight, joinWeight]
    cases j.cardinality <;> cases j.priority <;> decide
  joins e he e' he' hjoin := by
    -- Two edges at one position come from the same declared join, and names identify its models.
    obtain ⟨j, hj, horigin, htarget, hweight⟩ := join?_of_mem_edges he
    obtain ⟨j', hj', horigin', htarget', hweight'⟩ := join?_of_mem_edges he'
    obtain rfl : j = j' := Option.some.inj (hj.symm.trans (hjoin ▸ hj'))
    have hinjective := List.nodup_iff_injective_get.1 h.names
    obtain ⟨origin, target, weight, join⟩ := e
    obtain ⟨origin', target', weight', join'⟩ := e'
    obtain rfl : origin = origin' := hinjective (horigin.trans horigin'.symm)
    obtain rfl : target = target' := hinjective (htarget.trans htarget'.symm)
    simp only [JoinEdge.mk.injEq, true_and]
    exact ⟨hweight.trans hweight'.symm, hjoin⟩

end Valid

end Repository

end MetricLayer
