import MetricLayer.Proofs.Compile.Assembly

/-!
# The joins of a segment

The statement of a segment has one join clause for each edge of its join tree, on the condition of
the declared join. With the orientation that loses no edge, no join condition is lost on the way
from the declared joins to the statement.
-/

namespace MetricLayer

open Sql

/-! ## From the tree to the statement -/

namespace CompileScope

variable {scope : CompileScope}

/-- A join clause has the condition of the declared join at the given position. -/
def HasConditionOf (scope : CompileScope) (clause : JoinClause) (join : Nat) : Prop :=
  ∃ declared condition, scope.repository.join? join = some declared ∧
    scope.resolver.joinCondition scope declared = .ok condition ∧
    clause.condition = some condition.1

/-- Each join of a segment gives one join clause of its statement. -/
theorem forall₂_of_segmentStatement {predicates : PredicateScope} {e : Expansion} {s : Segment}
    {st : Statement} (h : scope.segmentStatement predicates e s = .ok st) :
    List.Forall₂ (fun clause j => scope.HasConditionOf clause j.join) st.joins s.joins := by
  obtain ⟨found, conditions, hst⟩ := exists_isSegmentStatement h
  refine hst.joins.imp fun clause j hclause => ?_
  obtain ⟨declared, condition, model, hdeclared, hcondition, -, -, rfl⟩ := hclause
  exact ⟨declared, condition, hdeclared, hcondition, rfl⟩

end CompileScope

/-! ## Every join exactly once -/

namespace Repository

variable {r : Repository}

/-- A segment goes over every edge of its tree once. -/
private theorem Valid.crossedBy_of_segment (hr : r.Valid) {scope : CompileScope}
    (hscope : scope.repository = r) {label : String} {group : SegmentGroup}
    {dimensions : List Member} {conjuncts : List Conjunct} {s : Segment}
    (h : scope.segment label group dimensions conjuncts = .ok s) :
    s.tree.CrossedBy (s.joins.map (·.toOrientedJoin)) := by
  subst hscope
  have hsegment := CompileScope.isSegment_of_segment h
  rw [hsegment.joins]
  exact (hsegment.isTree hr).crossedBy_orient (hsegment.mem_models hsegment.anchor_mem_required)

/-- A join tree has one join less than models, so it has no cycle, and nothing that follows loses a
join: seen from any of its models the tree keeps every join exactly once, and so do each segment
that is built on it and the conditions of the join clauses in the segment's statement. -/
theorem joinTree_crossed_once {models : List Model} {joins : List Join}
    (h : build models joins = .ok r) {requested : List String} {t : JoinTree}
    (htree : r.graph.joinTree requested = .ok t) (hne : t.models ≠ []) :
    t.edges.length = t.models.length - 1 ∧
      (∀ anchor ∈ t.models, t.CrossedBy (t.orient anchor)) ∧
      ∀ (scope : CompileScope) (label : String) (group : SegmentGroup) (dimensions : List Member)
        (conjuncts : List Conjunct) (s : Segment), scope.repository = r →
        scope.segment label group dimensions conjuncts = .ok s → s.tree = t →
        t.CrossedBy (s.joins.map (·.toOrientedJoin)) ∧
          ∀ (predicates : PredicateScope) (e : Expansion) (st : Statement),
            scope.segmentStatement predicates e s = .ok st →
            ∃ edges : List JoinTreeEdge, edges.Perm t.edges ∧
              List.Forall₂ (fun clause edge => scope.HasConditionOf clause edge.join) st.joins
                edges := by
  have hvalid := valid_of_build h
  have hisTree := JoinGraph.isTree_of_joinTree hvalid.regular htree
  refine ⟨?_, fun anchor hanchor => hisTree.crossedBy_orient hanchor, ?_⟩
  · have hlength := hisTree.length hne
    omega
  rintro scope label group dimensions conjuncts s hscope hs rfl
  have hcrossed := hvalid.crossedBy_of_segment hscope hs
  refine ⟨hcrossed, fun predicates e st hst => ?_⟩
  obtain ⟨edges, hperm, hall⟩ := hcrossed
  refine ⟨edges, hperm, ?_⟩
  -- The clauses follow the joins of the segment, which are the edges in some order.
  have hclauses := CompileScope.forall₂_of_segmentStatement hst
  have hjoins := map_join_eq_of_orients hall
  rw [List.map_map] at hjoins
  rw [← List.forall₂_map_right_iff, ← hjoins, List.forall₂_map_right_iff]
  exact hclauses

/-- Four models joined in a square, so that opposite corners have two equally cheap paths. -/
private def square : Repository where
  models := ["a", "b", "c", "d"].map fun name =>
    ⟨name, .table name, [{ name := "id", primaryKey := true }], []⟩
  joins := [("a", "b"), ("b", "c"), ("c", "d"), ("d", "a")].map fun (origin, target) =>
    { origin := origin, target := target, cardinality := .manyToOne, condition := fun _ => [] }

/-- Of the two ways around the square one is taken, and both its joins are kept. -/
theorem joinTree_crossed_once_square : ∃ t : JoinTree,
    build square.models square.joins = .ok square ∧
      square.graph.joinTree ["a", "c"] = .ok t ∧ t.models = ["a", "c", "b"] ∧
      t.edges.length = t.models.length - 1 ∧ t.CrossedBy (t.orient "a") := by
  have hbuild : build square.models square.joins = .ok square := rfl
  have htree : square.graph.joinTree ["a", "c"] =
      .ok ⟨["a", "c", "b"], [⟨"a", "b", 0⟩, ⟨"b", "c", 1⟩]⟩ := by decide +kernel
  obtain ⟨hlength, hcrossed, -⟩ := joinTree_crossed_once hbuild htree (by simp)
  exact ⟨_, hbuild, htree, rfl, hlength, hcrossed "a" (by simp)⟩

end Repository

end MetricLayer
