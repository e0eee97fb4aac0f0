import MetricLayer.Proofs.Segment.Expand

/-!
# Metrics among segments

The segments of an expansion divide the metrics that are requested or that conditions read:

- `CompileScope.IsExpansion.perm_metrics` — every metric belongs to one segment;
- `CompileScope.Partitions` — the metrics that there are, which of them share a segment, and in
  which order they and the segments stand;
- `CompileScope.partitions_of_expand` — this holds of every expansion.
-/

namespace MetricLayer

namespace CompileScope

variable {scope : CompileScope}

/-! ## The segment of a metric -/

/-- Every metric goes to one group. -/
theorem perm_of_groups {dimensions metrics : List Member} {gs : List SegmentGroup}
    (h : scope.groups dimensions metrics = .ok gs) :
    (gs.flatMap (·.metrics)).Perm metrics := by
  obtain ⟨xs, rfl, -, ⟨hnil, first, -, rfl⟩ | ⟨-, rfl⟩⟩ := exists_of_groups h
  · rw [hnil]
    exact .refl _
  · exact perm_flatMap_collect xs

namespace IsExpansion

variable {query : Query} {e : Expansion} (h : scope.IsExpansion query e)

include h

/-- The segments have the anchors and the metrics of the groups. -/
theorem forall₂_groups : ∃ gs, scope.groups e.dimensions (addAllNewBy Member.path e.metrics
      ((e.conjuncts.flatMap (·.members)).filter (·.isMetric))) = .ok gs ∧
    List.Forall₂ (fun g s => s.anchor = g.anchor ∧ s.metrics = g.metrics) gs e.segments := by
  obtain ⟨gs, hgs, hsegments⟩ := h.segments
  refine ⟨gs, hgs, ?_⟩
  rw [← List.zipIdx_map_fst 0 gs, List.forall₂_map_left_iff]
  exact hsegments.imp fun x s hs => ⟨hs.anchor, hs.metrics⟩

/-- The segments compute the metrics that are requested or that conditions read, each of them
once. -/
theorem perm_metrics : (e.segments.flatMap (·.metrics)).Perm (addAllNewBy Member.path e.metrics
    ((e.conjuncts.flatMap (·.members)).filter (·.isMetric))) := by
  obtain ⟨gs, hgs, hsegments⟩ := h.forall₂_groups
  have hmetrics : gs.map (·.metrics) = e.segments.map (·.metrics) :=
    map_eq_map_of_forall₂ (hsegments.imp fun g s hs => hs.2.symm)
  rw [List.flatMap_def, ← hmetrics, ← List.flatMap_def]
  exact perm_of_groups hgs

/-- No metric stands in two segments, nor twice in one. -/
theorem nodup_paths : ((e.segments.flatMap (·.metrics)).map Member.path).Nodup := by
  refine (h.perm_metrics.map Member.path).nodup_iff.2 (nodup_keys_addAllNewBy ?_ _)
  obtain ⟨found, -, hmetrics⟩ := exists_ok_of_bind h.metrics
  rw [← Except.ok.inj hmetrics]
  exact nodup_keys_addAllNewBy (by simp) found

/-- A requested metric is computed in a segment. -/
theorem exists_segment {m : Member} (hm : m ∈ e.metrics) : ∃ s ∈ e.segments, m ∈ s.metrics := by
  refine List.mem_flatMap.1 (h.perm_metrics.mem_iff.2 ?_)
  exact (prefix_addAllNewBy _ _ _).subset hm

/-- A metric with a path is computed in one segment only. -/
theorem segment_eq_of_path {s s' : Segment} (hs : s ∈ e.segments) (hs' : s' ∈ e.segments)
    {m m' : Member} (hm : m ∈ s.metrics) (hm' : m' ∈ s'.metrics) (hpath : m.path = m'.path) :
    s = s' := by
  have hnodup := h.nodup_paths
  rw [List.map_flatMap, List.nodup_flatMap] at hnodup
  have : Std.Symm (Function.onFun List.Disjoint fun s : Segment => s.metrics.map Member.path) :=
    ⟨fun _ _ hdisjoint => hdisjoint.symm⟩
  by_contra hne
  exact hnodup.2.forall hs hs' hne (List.mem_map_of_mem hm) (hpath ▸ List.mem_map_of_mem hm')

end IsExpansion

/-! ## The metrics that there are -/

/-- A conjunct of the filter reads the member. -/
def FilterReads (scope : CompileScope) (query : Query) (m : Member) : Prop :=
  ∃ f ∈ (query.filter.map Filter.conjuncts).getD [], ∃ path ∈ f.members,
    scope.repository.member path = .ok m

/-- Requested members are those that the paths name, each at its first place. -/
private theorem forall₂_addAllNewBy_path {find : String → Result Member}
    (hfind : ∀ path m, find path = .ok m → scope.repository.member path = .ok m)
    {paths : List String} {found : List Member} (h : paths.mapM find = .ok found) :
    List.Forall₂ (fun path m => find path = .ok m) (distinct paths)
      (addAllNewBy Member.path [] found) :=
  forall₂_addAllNewBy (fun path m hm => (Repository.path_of_member (hfind path m hm)).symm) .nil
    (Agree.forall₂_of_mapM h)

namespace IsExpansion

variable {query : Query} {e : Expansion} (h : scope.IsExpansion query e)

include h

theorem forall₂_metrics :
    List.Forall₂ (fun path m => scope.repository.metric path = .ok m) (distinct query.metrics)
      e.metrics := by
  obtain ⟨found, hfound, hmetrics⟩ := exists_ok_of_bind h.metrics
  rw [← Except.ok.inj hmetrics]
  exact forall₂_addAllNewBy_path (fun _ _ => Repository.member_of_metric) hfound

theorem forall₂_dimensions :
    List.Forall₂ (fun path m => scope.repository.dimension path = .ok m) (distinct query.dimensions)
      e.dimensions := by
  obtain ⟨found, hfound, hdimensions⟩ := exists_ok_of_bind h.dimensions
  rw [← Except.ok.inj hdimensions]
  exact forall₂_addAllNewBy_path (fun _ _ => Repository.member_of_dimension) hfound

/-- The paths of the requested metrics. -/
theorem mem_map_path_iff {path : String} :
    path ∈ e.metrics.map Member.path ↔ path ∈ query.metrics := by
  have hpaths : distinct query.metrics = e.metrics.map Member.path := by
    rw [← List.forall₂_eq_eq_eq, List.forall₂_map_right_iff]
    exact h.forall₂_metrics.imp fun path m hm =>
      (Repository.path_of_member (Repository.member_of_metric hm)).symm
  rw [← hpaths, mem_distinct]

/-- What the filter reads are the members of the conjuncts. -/
theorem filterReads_iff {m : Member} :
    scope.FilterReads query m ↔ ∃ c ∈ e.conjuncts, m ∈ c.members := by
  constructor
  · rintro ⟨f, hf, path, hpath, hm⟩
    obtain ⟨c, hc, hconjunct⟩ := exists_mem_of_forall₂ h.conjuncts.flip hf
    obtain ⟨m', hmem, hm'⟩ := exists_mem_of_forall₂ hconjunct.members.flip hpath
    obtain rfl := Except.ok.inj (hm.symm.trans hm')
    exact ⟨c, hc, hmem⟩
  · rintro ⟨c, hc, hmem⟩
    obtain ⟨f, hf, hconjunct⟩ := exists_mem_of_forall₂ h.conjuncts hc
    obtain ⟨path, hpath, hm⟩ := exists_mem_of_forall₂ hconjunct.members hmem
    exact ⟨f, hf, path, hpath, hm⟩

end IsExpansion

/-! ## Partitions -/

/-- The segments divide the metrics that are requested or that conditions read. -/
structure Partitions (scope : CompileScope) (query : Query) (e : Expansion) : Prop where
  /-- The requested metrics, each at its first place. -/
  metrics : List.Forall₂ (fun path m => scope.repository.metric path = .ok m)
    (distinct query.metrics) e.metrics
  /-- The hidden metrics are those that a conjunct reads and that are not requested. -/
  mem_hidden_iff (m : Member) : m ∈ e.hidden ↔
    m.isMetric = true ∧ scope.FilterReads query m ∧ m.path ∉ query.metrics
  /-- No metric is repeated. -/
  nodup : ((e.metrics ++ e.hidden).map Member.path).Nodup
  /-- Every metric is computed in one segment. -/
  perm : (e.segments.flatMap (·.metrics)).Perm (e.metrics ++ e.hidden)
  /-- A segment is anchored in the model of its metrics. -/
  owner : ∀ s ∈ e.segments, ∀ m ∈ s.metrics, m.model.name = s.anchor
  /-- Metrics share a segment if they have one model and one fan. -/
  together_iff : ∀ m ∈ e.metrics ++ e.hidden, ∀ m' ∈ e.metrics ++ e.hidden,
    (∃ s ∈ e.segments, m ∈ s.metrics ∧ m' ∈ s.metrics) ↔ m.model.name = m'.model.name ∧
      ∃ fanned, scope.fannedOut m = .ok fanned ∧ scope.fannedOut m' = .ok fanned
  /-- The segments stand in the order of their first metrics. -/
  sublist_heads : (e.segments.filterMap (·.metrics.head?)).Sublist (e.metrics ++ e.hidden)
  /-- Inside a segment the metrics keep their order. -/
  sublist_metrics : ∀ s ∈ e.segments, s.metrics.Sublist (e.metrics ++ e.hidden)
  /-- There is a segment without metrics where no metric is requested or read by a conjunct. -/
  bare_iff : (∃ s ∈ e.segments, s.metrics = []) ↔
    query.metrics = [] ∧ ∀ m, scope.FilterReads query m → m.isMetric = false
  /-- A segment without metrics is the only one, and is anchored in the model of the first
  dimension. -/
  bare : ∀ s ∈ e.segments, s.metrics = [] → e.segments = [s] ∧
    ∃ path first, query.dimensions.head? = some path ∧
      scope.repository.dimension path = .ok first ∧ s.anchor = first.model.name

section Expand

variable {query : Query} {e : Expansion} (h : scope.expand query = .ok e)

include h

/-- The metrics of the segments are the requested and the hidden ones. -/
private theorem perm_metrics_append_hidden :
    (e.segments.flatMap (·.metrics)).Perm (e.metrics ++ e.hidden) := by
  rw [metrics_append_hidden_of_expand h]
  exact (isExpansion_of_expand h).perm_metrics

private theorem nodup_metrics_append_hidden :
    ((e.metrics ++ e.hidden).map Member.path).Nodup :=
  ((perm_metrics_append_hidden h).map Member.path).nodup_iff.1 (isExpansion_of_expand h).nodup_paths

/-- The hidden metrics are those that a conjunct reads and that are not requested. -/
theorem mem_hidden_iff {m : Member} : m ∈ e.hidden ↔
    m.isMetric = true ∧ scope.FilterReads query m ∧ m.path ∉ query.metrics := by
  have he := isExpansion_of_expand h
  have hall := metrics_append_hidden_of_expand h
  have hread (m : Member) : m ∈ (e.conjuncts.flatMap (·.members)).filter (·.isMetric) ↔
      m.isMetric = true ∧ scope.FilterReads query m := by
    rw [List.mem_filter, List.mem_flatMap, he.filterReads_iff, and_comm]
  rw [← he.mem_map_path_iff]
  constructor
  · intro hm
    have hnodup := nodup_metrics_append_hidden h
    rw [List.map_append] at hnodup
    -- No path stands among the requested metrics and the hidden ones at once.
    have hpath : m.path ∉ e.metrics.map Member.path := fun hmem =>
      (List.nodup_append.1 hnodup).2.2 _ hmem _ (List.mem_map_of_mem hm) rfl
    have hmem : m ∈ e.metrics ++ e.hidden := List.mem_append_right _ hm
    rw [hall] at hmem
    have hmetric := (hread m).1 ((mem_or_mem_of_mem_addAllNewBy hmem).resolve_left
      fun hm => hpath (List.mem_map_of_mem hm))
    exact ⟨hmetric.1, hmetric.2, hpath⟩
  · rintro ⟨hmetric, hreads, hpath⟩
    have hkey : m.path ∈ (e.metrics ++ e.hidden).map Member.path := by
      rw [hall]
      exact mem_keys_addAllNewBy (.inr ((hread m).2 ⟨hmetric, hreads⟩))
    rw [List.map_append] at hkey
    obtain ⟨m', hm', heq⟩ := List.mem_map.1 ((List.mem_append.1 hkey).resolve_left hpath)
    -- The hidden metric with this path is the member that the filter reads.
    have hmem : m' ∈ e.segments.flatMap (·.metrics) :=
      (perm_metrics_append_hidden h).mem_iff.2 (List.mem_append_right _ hm')
    obtain ⟨s, hs, hms⟩ := List.mem_flatMap.1 hmem
    have hpath' := (he.isMember_of_metric hs hms).member_path
    obtain ⟨f, -, path, -, hfound⟩ := hreads
    rw [heq, Repository.path_of_member hfound, hfound] at hpath'
    obtain rfl := Except.ok.inj hpath'
    exact hm'

/-- Where there is a metric, each segment computes the metrics of one model with one fan. -/
private theorem exists_collected :
    ∃ xs, xs.map Prod.fst = e.metrics ++ e.hidden ∧ (∀ x ∈ xs, scope.fannedOut x.1 = .ok x.2) ∧
      ((e.metrics ++ e.hidden = [] ∧ ∃ s first, e.segments = [s] ∧ s.metrics = [] ∧
          e.dimensions.head? = some first ∧ s.anchor = first.model.name) ∨
        (e.metrics ++ e.hidden ≠ [] ∧ e.segments.map (·.metrics) =
          ((distinct (xs.map metricKey)).map (SegmentGroup.collect xs)).map (·.metrics))) := by
  have he := isExpansion_of_expand h
  obtain ⟨gs, hgs, hsegments⟩ := he.forall₂_groups
  rw [← metrics_append_hidden_of_expand h] at hgs
  obtain ⟨xs, hxs, hfanned, ⟨hnone, first, hfirst, rfl⟩ | ⟨hdimensions, rfl⟩⟩ :=
    exists_of_groups hgs
  · obtain ⟨s, rest, hs, hrest, hcons⟩ := List.forall₂_cons_left_iff.1 hsegments
    obtain rfl := List.forall₂_nil_left_iff.1 hrest
    exact ⟨xs, hxs, hfanned, .inl ⟨hnone, s, first, hcons, hs.2, hfirst, hs.1⟩⟩
  · refine ⟨xs, hxs, hfanned, .inr ⟨fun hnone => ?_, ?_⟩⟩
    · -- Without any dimension a metric is requested.
      exact metrics_ne_nil_of_expand h (hdimensions hnone) (List.append_eq_nil_iff.1 hnone).1
    · exact map_eq_map_of_forall₂ (hsegments.flip.imp fun s g hs => hs.2)

private theorem sublist_heads :
    (e.segments.filterMap (·.metrics.head?)).Sublist (e.metrics ++ e.hidden) := by
  obtain ⟨xs, hxs, -, ⟨-, s, -, hs, hnone, -⟩ | ⟨-, hcollected⟩⟩ := exists_collected h
  · simp [hs, hnone]
  · have hheads : e.segments.filterMap (·.metrics.head?) =
        ((distinct (xs.map metricKey)).map (SegmentGroup.collect xs)).filterMap
          (·.metrics.head?) := by
      have hmap := congrArg (List.filterMap List.head?) hcollected
      rwa [List.filterMap_map, List.filterMap_map] at hmap
    rw [hheads, ← hxs]
    exact sublist_heads_collect xs

private theorem sublist_metrics {s : Segment} (hs : s ∈ e.segments) :
    s.metrics.Sublist (e.metrics ++ e.hidden) := by
  obtain ⟨xs, hxs, -, ⟨-, s', -, hs', hnone, -⟩ | ⟨-, hcollected⟩⟩ := exists_collected h
  · rw [hs', List.mem_singleton] at hs
    rw [hs, hnone]
    exact List.nil_sublist _
  · have hmem : s.metrics ∈ e.segments.map (·.metrics) := List.mem_map_of_mem hs
    rw [hcollected, List.map_map] at hmem
    obtain ⟨key, -, hkey⟩ := List.mem_map.1 hmem
    rw [← hkey, ← hxs]
    exact SegmentGroup.sublist_metrics_collect xs key

/-- Two metrics share a segment exactly when they have one owner and one answer to fan-out. -/
private theorem together_iff {m m' : Member} (hm : m ∈ e.metrics ++ e.hidden)
    (hm' : m' ∈ e.metrics ++ e.hidden) :
    (∃ s ∈ e.segments, m ∈ s.metrics ∧ m' ∈ s.metrics) ↔ m.model.name = m'.model.name ∧
      ∃ fanned, scope.fannedOut m = .ok fanned ∧ scope.fannedOut m' = .ok fanned := by
  have he := isExpansion_of_expand h
  constructor
  · rintro ⟨s, hs, hmem, hmem'⟩
    obtain ⟨_, group, hgroup, hsegment⟩ := he.exists_group hs
    rw [hsegment.metrics] at hmem hmem'
    obtain ⟨howner, hfanned⟩ := hgroup m hmem
    obtain ⟨howner', hfanned'⟩ := hgroup m' hmem'
    exact ⟨howner.trans howner'.symm, group.fanned, hfanned, hfanned'⟩
  · rintro ⟨howner, fanned, hfanned, hfanned'⟩
    obtain ⟨xs, hxs, hall, ⟨hnone, -⟩ | ⟨-, hcollected⟩⟩ := exists_collected h
    · rw [hnone] at hm
      cases hm
    · rw [← hxs] at hm hm'
      obtain ⟨⟨m, f⟩, hx, rfl⟩ := List.mem_map.1 hm
      obtain ⟨⟨m', f'⟩, hx', rfl⟩ := List.mem_map.1 hm'
      obtain rfl := Except.ok.inj ((hall _ hx).symm.trans hfanned)
      obtain rfl := Except.ok.inj ((hall _ hx').symm.trans hfanned')
      -- Both metrics are in the group with their key.
      have hkey : metricKey (m', f') = metricKey (m, f') := Prod.ext howner.symm rfl
      have hmem : (SegmentGroup.collect xs (metricKey (m, f'))).metrics ∈
          e.segments.map (·.metrics) := by
        rw [hcollected]
        exact List.mem_map_of_mem (List.mem_map_of_mem
          (mem_distinct.2 (List.mem_map_of_mem hx)))
      obtain ⟨s, hs, hmetrics⟩ := List.mem_map.1 hmem
      refine ⟨s, hs, ?_, ?_⟩
      · rw [hmetrics]
        exact SegmentGroup.mem_collect hx
      · rw [hmetrics, ← hkey]
        exact SegmentGroup.mem_collect hx'

/-- A segment without metrics is the only one. -/
private theorem of_metrics_eq_nil {s : Segment} (hs : s ∈ e.segments) (hnone : s.metrics = []) :
    e.metrics ++ e.hidden = [] ∧ e.segments = [s] ∧
      ∃ first, e.dimensions.head? = some first ∧ s.anchor = first.model.name := by
  obtain ⟨xs, hxs, -, ⟨hall, s', first, hs', -, hfirst, hanchor⟩ | ⟨-, hcollected⟩⟩ :=
    exists_collected h
  · rw [hs', List.mem_singleton] at hs
    subst hs
    exact ⟨hall, hs', first, hfirst, hanchor⟩
  · -- A group has the metric that it was made for.
    have hmem : s.metrics ∈ e.segments.map (·.metrics) := List.mem_map_of_mem hs
    rw [hcollected, List.map_map, hnone] at hmem
    obtain ⟨key, hkey, hempty⟩ := List.mem_map.1 hmem
    obtain ⟨x, hx, rfl⟩ := List.mem_map.1 (mem_distinct.1 hkey)
    have hfirst : x.1 ∈ (SegmentGroup.collect xs (metricKey x)).metrics :=
      SegmentGroup.mem_collect hx
    rw [show (SegmentGroup.collect xs (metricKey x)).metrics = [] from hempty] at hfirst
    cases hfirst

/-- A segment without metrics arises exactly when nothing of the query reads a metric. -/
private theorem bare_iff : (∃ s ∈ e.segments, s.metrics = []) ↔
    query.metrics = [] ∧ ∀ m, scope.FilterReads query m → m.isMetric = false := by
  have hrequested : e.metrics = [] ↔ query.metrics = [] := (isExpansion_of_expand h).metrics_eq_nil
  constructor
  · rintro ⟨s, hs, hnone⟩
    obtain ⟨hmetrics, hhidden⟩ := List.append_eq_nil_iff.1 (of_metrics_eq_nil h hs hnone).1
    have hquery := hrequested.1 hmetrics
    refine ⟨hquery, fun m hm => ?_⟩
    by_contra hmetric
    have hmem : m ∈ e.hidden :=
      (mem_hidden_iff h).2 ⟨by simpa using hmetric, hm, by simp [hquery]⟩
    rw [hhidden] at hmem
    cases hmem
  · -- Without a metric there is one segment, of the dimensions alone.
    rintro ⟨hquery, hfilter⟩
    have hhidden : e.hidden = [] := by
      refine List.eq_nil_iff_forall_not_mem.2 fun m hm => ?_
      obtain ⟨hmetric, hreads, -⟩ := (mem_hidden_iff h).1 hm
      rw [hfilter m hreads] at hmetric
      cases hmetric
    obtain ⟨xs, -, -, ⟨-, s, first, hs, hnone, -⟩ | ⟨hsome, -⟩⟩ := exists_collected h
    · exact ⟨s, by rw [hs]; exact List.mem_singleton_self s, hnone⟩
    · exact absurd (by rw [hrequested.2 hquery, hhidden, List.nil_append]) hsome

private theorem bare {s : Segment} (hs : s ∈ e.segments) (hnone : s.metrics = []) :
    e.segments = [s] ∧ ∃ path first, query.dimensions.head? = some path ∧
      scope.repository.dimension path = .ok first ∧ s.anchor = first.model.name := by
  obtain ⟨-, honly, first, hfirst, hanchor⟩ := of_metrics_eq_nil h hs hnone
  have hdimensions := (isExpansion_of_expand h).forall₂_dimensions
  obtain ⟨rest, hcons⟩ := List.head?_eq_some_iff.1 hfirst
  rw [hcons] at hdimensions
  obtain ⟨path, paths, hpath, -, hpaths⟩ := List.forall₂_cons_right_iff.1 hdimensions
  refine ⟨honly, path, first, ?_, hpath, hanchor⟩
  rw [← head?_distinct, hpaths]
  rfl

end Expand

/-- The metrics of an expansion are requested, or a conjunct reads them, and each of them is
computed in one segment: together with those of its model that have its fan, and in the order in
which the metrics are given. Without any metric there is one segment, for the model of the first
dimension. -/
theorem partitions_of_expand {query : Query} {e : Expansion} (h : scope.expand query = .ok e) :
    scope.Partitions query e where
  metrics := (isExpansion_of_expand h).forall₂_metrics
  mem_hidden_iff _ := mem_hidden_iff h
  nodup := nodup_metrics_append_hidden h
  perm := perm_metrics_append_hidden h
  owner s hs m hm := by
    obtain ⟨_, group, hgroup, hsegment⟩ := (isExpansion_of_expand h).exists_group hs
    rw [hsegment.metrics] at hm
    rw [hsegment.anchor]
    exact (hgroup m hm).1
  together_iff _ hm _ hm' := together_iff h hm hm'
  sublist_heads := sublist_heads h
  sublist_metrics _ hs := sublist_metrics h hs
  bare_iff := bare_iff h
  bare _ hs := bare h hs

/-! ### Readers and their loans -/

/-- A metric that counts the different values of what a part of a template stands for. -/
private def differing (name : String) (part : TemplatePart) : Metric :=
  ⟨name, none, fun _ => [.sql "count(distinct ", part, .sql ")"]⟩

private def readerModel : Model where
  name := "reader"
  source := .table "readers"
  dimensions := [{ name := "id", primaryKey := true }, { name := "name" }]
  metrics := [differing "count" (.column "id"), differing "names" (.column "name"),
    differing "loans" (.dimension "loan.id")]

private def loanModel : Model where
  name := "loan"
  source := .table "loans"
  dimensions := [{ name := "id", primaryKey := true }]
  metrics := [differing "count" (.column "id"), differing "readers" (.dimension "reader.id")]

/-- Loans of readers. -/
private def libraryScope : CompileScope where
  repository := {
    models := [readerModel, loanModel]
    joins := [{
      origin := "loan"
      target := "reader"
      cardinality := .manyToOne
      condition := fun scope =>
        [scope.originDimension "id", .sql " = ", scope.targetDimension "id"] }] }
  dialect := .ansi
  context := .null
  now := ⟨⟨2024, 1, 1⟩, .midnight⟩

/-- Metrics of readers with and without their loans, one of them twice, and conditions on two more
metrics. -/
private def busyReaders : Query where
  dimensions := ["reader.name"]
  metrics := ["reader.loans", "loan.count", "reader.count", "reader.loans"]
  filter := some (.group .all [
    .leaf ⟨.greater, "reader.names", some (.number (.int 1))⟩,
    .group .any [
      .leaf ⟨.greater, "reader.names", some (.number (.int 5))⟩,
      .leaf ⟨.greater, "loan.readers", some (.number (.int 5))⟩,
      .leaf ⟨.less, "loan.count", some (.number (.int 2))⟩]])

/-- Each reader meets several loans, so the loans of readers are counted apart from readers. Names
alone need no metric. -/
theorem partitions_of_expand_readers :
    (∃ e, libraryScope.expand busyReaders = .ok e ∧
      e.segments.map (fun s => (s.anchor, s.metrics.map Member.path)) =
        [("reader", ["reader.loans"]), ("loan", ["loan.count", "loan.readers"]),
          ("reader", ["reader.count", "reader.names"])] ∧
      e.hidden.map Member.path = ["reader.names", "loan.readers"] ∧
      libraryScope.Partitions busyReaders e) ∧
    ∃ e, libraryScope.expand { dimensions := ["reader.name"] } = .ok e ∧
      e.segments.map (fun s => (s.anchor, s.metrics.map Member.path)) = [("reader", [])] ∧
      libraryScope.Partitions { dimensions := ["reader.name"] } e := by
  have hbusy : (libraryScope.expand busyReaders).toOption.map (fun e =>
      (e.segments.map fun s => (s.anchor, s.metrics.map Member.path), e.hidden.map Member.path)) =
      some ([("reader", ["reader.loans"]), ("loan", ["loan.count", "loan.readers"]),
        ("reader", ["reader.count", "reader.names"])], ["reader.names", "loan.readers"]) := by
    decide +kernel
  have hnames : (libraryScope.expand { dimensions := ["reader.name"] }).toOption.map (fun e =>
      e.segments.map fun s => (s.anchor, s.metrics.map Member.path)) = some [("reader", [])] := by
    decide +kernel
  obtain ⟨e, he, hsegments⟩ := exists_ok_of_toOption_map hbusy
  obtain ⟨hsegments, hhidden⟩ := Prod.mk.inj hsegments
  obtain ⟨e', he', hsegments'⟩ := exists_ok_of_toOption_map hnames
  exact ⟨⟨e, he, hsegments, hhidden, partitions_of_expand he⟩,
    e', he', hsegments', partitions_of_expand he'⟩

end CompileScope

end MetricLayer
