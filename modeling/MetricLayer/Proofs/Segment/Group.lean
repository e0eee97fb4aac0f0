import MetricLayer.Proofs.Distinct
import MetricLayer.Proofs.Result
import MetricLayer.Segment.Expand

/-!
# Groups of metrics

Metrics are added to groups one after the other. In the end there is one group for each model and
fan that some metric has, in the order in which these first occur, and it holds all metrics that
have them, in their order.

- `metricKey` — the model and the fan of a metric;
- `SegmentGroup.collect` — the group of all metrics with a key;
- `foldl_addToGroup` — the groups in closed form;
- `CompileScope.exists_of_groups` — the groups of an expansion.
-/

namespace MetricLayer

/-- The model of a metric, and the models that it reads across joins that multiply rows. -/
def metricKey (x : Member × List String) : String × List String := (x.1.model.name, x.2)

/-- The group of the metrics with a key. -/
def SegmentGroup.collect (xs : List (Member × List String)) (key : String × List String) :
    SegmentGroup :=
  ⟨key.1, key.2, (xs.filter (metricKey · = key)).map Prod.fst⟩

section Collect

variable {xs : List (Member × List String)} {x : Member × List String}
  {keys : List (String × List String)} {key : String × List String}

theorem SegmentGroup.collect_concat_of_ne (h : metricKey x ≠ key) :
    collect (xs ++ [x]) key = collect xs key := by
  simp [collect, h]

/-- A metric joins the group of its own key behind the metrics already there. -/
theorem SegmentGroup.collect_concat_self (xs : List (Member × List String))
    (x : Member × List String) : collect (xs ++ [x]) (metricKey x) =
      { collect xs (metricKey x) with metrics := (collect xs (metricKey x)).metrics ++ [x.1] } := by
  simp [collect]

/-- One more metric joins the group with its key. Where there is no such group, it comes last in one
of its own. -/
theorem addToGroup_collect (hnodup : keys.Nodup)
    (hnew : metricKey x ∉ keys → ∀ y ∈ xs, metricKey y ≠ metricKey x) :
    addToGroup x.1 x.2 (keys.map (.collect xs)) =
      (addNewBy id keys (metricKey x)).map (.collect (xs ++ [x])) := by
  induction keys with
  | nil =>
    have hnone : xs.filter (metricKey · = metricKey x) = [] :=
      List.filter_eq_nil_iff.2 fun y hy => by simpa using hnew List.not_mem_nil y hy
    have hsingle : SegmentGroup.collect (xs ++ [x]) (metricKey x) =
        ⟨x.1.model.name, x.2, [x.1]⟩ := by
      rw [SegmentGroup.collect_concat_self, SegmentGroup.collect, hnone]
      rfl
    exact congrArg ([·]) hsingle.symm
  | cons key rest ih =>
    obtain ⟨hkey, hrest⟩ := List.nodup_cons.1 hnodup
    rw [List.map_cons, addToGroup]
    by_cases hfits : key = metricKey x
    · -- The metric joins the first group, and no other group has its key.
      subst hfits
      have hothers : ∀ key' ∈ rest, SegmentGroup.collect xs key' = .collect (xs ++ [x]) key' :=
        fun key' hkey' =>
          (SegmentGroup.collect_concat_of_ne (ne_of_mem_of_not_mem hkey' hkey).symm).symm
      rw [if_pos ⟨rfl, rfl⟩, addNewBy, if_pos (by simp), List.map_cons,
        SegmentGroup.collect_concat_self, List.map_congr_left hothers]
    · have hfitsNot : ¬((SegmentGroup.collect xs key).anchor = x.1.model.name ∧
          (SegmentGroup.collect xs key).fanned = x.2) :=
        fun h => hfits (Prod.ext h.1 h.2)
      have hnewRest : metricKey x ∉ rest → ∀ y ∈ xs, metricKey y ≠ metricKey x :=
        fun h => hnew (by simp [h, Ne.symm hfits])
      rw [if_neg hfitsNot, ih hrest hnewRest, addNewBy_cons_of_ne hfits, List.map_cons,
        SegmentGroup.collect_concat_of_ne (Ne.symm hfits)]

end Collect

/-- All metrics with one key are in one group, and the groups stand in the order in which their keys
first occur. -/
theorem foldl_addToGroup (xs : List (Member × List String)) :
    xs.foldl (fun gs (m, f) => addToGroup m f gs) [] =
      (distinct (xs.map metricKey)).map (.collect xs) := by
  induction xs using List.reverseRecOn with
  | nil => rfl
  | append_singleton xs x ih =>
    have hnew : metricKey x ∉ distinct (xs.map metricKey) →
        ∀ y ∈ xs, metricKey y ≠ metricKey x :=
      fun hx y hy heq => hx (mem_distinct.2 (heq ▸ List.mem_map_of_mem hy))
    rw [List.foldl_append, ih, List.map_append, List.map_singleton, distinct_concat]
    exact addToGroup_collect (nodup_distinct _) hnew

/-- The metrics of a group are among those that are collected. -/
theorem SegmentGroup.mem_of_mem_collect {xs : List (Member × List String)}
    {key : String × List String} {m : Member} (h : m ∈ (collect xs key).metrics) :
    ∃ x ∈ xs, metricKey x = key ∧ x.1 = m := by
  obtain ⟨x, hx, rfl⟩ := List.mem_map.1 h
  obtain ⟨hmem, hkey⟩ := List.mem_filter.1 hx
  exact ⟨x, hmem, of_decide_eq_true hkey, rfl⟩

theorem SegmentGroup.mem_collect {xs : List (Member × List String)} {x : Member × List String}
    (hx : x ∈ xs) : x.1 ∈ (collect xs (metricKey x)).metrics :=
  List.mem_map_of_mem (List.mem_filter.2 ⟨hx, by simp⟩)

/-- The metrics of a group keep their order. -/
theorem SegmentGroup.sublist_metrics_collect (xs : List (Member × List String))
    (key : String × List String) : (collect xs key).metrics.Sublist (xs.map Prod.fst) :=
  List.filter_sublist.map _

/-- The groups stand in the order of their first metrics. -/
theorem sublist_heads_collect (xs : List (Member × List String)) :
    (((distinct (xs.map metricKey)).map (SegmentGroup.collect xs)).filterMap
      (·.metrics.head?)).Sublist (xs.map Prod.fst) := by
  have hheads : ((distinct (xs.map metricKey)).map (SegmentGroup.collect xs)).filterMap
      (·.metrics.head?) =
      ((distinct (xs.map metricKey)).filterMap fun key => xs.find? (metricKey · = key)).map
        Prod.fst := by
    rw [List.filterMap_map, List.map_filterMap]
    simp [Function.comp_def, SegmentGroup.collect]
  rw [hheads]
  exact (sublist_firsts metricKey xs).map _

/-- The metrics are divided among the groups. -/
theorem perm_flatMap_collect (xs : List (Member × List String)) :
    (((distinct (xs.map metricKey)).map (SegmentGroup.collect xs)).flatMap (·.metrics)).Perm
      (xs.map Prod.fst) := by
  have hkeys : ∀ x ∈ xs, metricKey x ∈ distinct (xs.map metricKey) :=
    fun x hx => mem_distinct.2 (List.mem_map_of_mem hx)
  have hperm := (perm_flatMap_filter metricKey (nodup_distinct _) hkeys).map Prod.fst
  rw [List.map_flatMap] at hperm
  rw [List.flatMap_map]
  exact hperm

/-! ## Groups of an expansion -/

/-- The groups are those of the metrics with their fans. Where there is no metric, there is one
group for the model of the first dimension. -/
theorem CompileScope.exists_of_groups {scope : CompileScope} {dimensions metrics : List Member}
    {gs : List SegmentGroup} (h : scope.groups dimensions metrics = .ok gs) :
    ∃ xs, xs.map Prod.fst = metrics ∧ (∀ x ∈ xs, scope.fannedOut x.1 = .ok x.2) ∧
      ((metrics = [] ∧ ∃ first, dimensions.head? = some first ∧
          gs = [⟨first.model.name, [], []⟩]) ∨
        (metrics = [] → dimensions = []) ∧
          gs = (distinct (xs.map metricKey)).map (.collect xs)) := by
  rw [groups] at h
  obtain ⟨xs, hxs, h⟩ := exists_ok_of_bind h
  have hread : List.Forall₂ (fun m x => x.1 = m ∧ scope.fannedOut m = .ok x.2) metrics xs := by
    refine (Agree.forall₂_of_mapM hxs).imp fun m x hx => ?_
    obtain ⟨f, hf, hx⟩ := exists_ok_of_bind hx
    obtain rfl := Except.ok.inj hx
    exact ⟨rfl, hf⟩
  have hmetrics : xs.map Prod.fst = metrics := by
    rw [← List.forall₂_eq_eq_eq, List.forall₂_map_left_iff]
    exact hread.flip.imp fun _ _ hx => hx.1
  have hfanned : ∀ x ∈ xs, scope.fannedOut x.1 = .ok x.2 := by
    intro x hx
    obtain ⟨m, -, rfl, hf⟩ := exists_mem_of_forall₂ hread hx
    exact hf
  refine ⟨xs, hmetrics, hfanned, ?_⟩
  dsimp only at h
  rw [foldl_addToGroup] at h
  have hnone : (distinct (xs.map metricKey)).map (SegmentGroup.collect xs) = [] ↔ metrics = [] := by
    rw [List.map_eq_nil_iff, distinct_eq_nil_iff, ← hmetrics, List.map_eq_nil_iff,
      List.map_eq_nil_iff]
  -- Only where no metric is grouped does a dimension matter.
  split at h
  · rename_i first _ hnil _
    obtain rfl := Except.ok.inj h
    exact .inl ⟨hnone.1 hnil, first, rfl, rfl⟩
  · rename_i hsome _
    obtain rfl := Except.ok.inj h
    refine .inr ⟨fun hnil => ?_, rfl⟩
    by_contra hne
    obtain ⟨first, rest, hfirst⟩ := List.exists_cons_of_ne_nil hne
    exact hsome first rest (hnone.2 hnil) hfirst

end MetricLayer
