import MetricLayer.Proofs.Compile.Assembly
import MetricLayer.Proofs.Repository.Label
import MetricLayer.Proofs.Segment.Partition

/-!
# What labels are relied on for

The columns that statements project are told apart by their labels alone: a projection whose model
and label are there already is left out, and the layout of the root notes the segment of a metric
under the label of the metric. Where labels are different so is what they stand for:

- `CompileScope.IsDimensionColumn` — a column that a dimension projects; two of them with one label
  are the same;
- `Expansion.MetricsApart` — no label is that of metrics in two segments; the root then reads every
  metric from its own segment (`Expansion.segmentOf?_eq`).

Names that leave no doubt about labels give all of this (`CompileScope.label_identifies_member`).
Validation does not ask for such names, and without them columns are mistaken for each other
(`CompileScope.label_mistakes_member`).
-/

namespace MetricLayer

open Sql (Fragment)

/-! ## Columns of dimensions -/

namespace CompileScope

variable {scope : CompileScope}

/-- A column that the evaluated definition of a dimension projects. -/
def IsDimensionColumn (scope : CompileScope) (p : Projection) : Prop :=
  ∃ m c, scope.repository.IsMember m ∧ m.isMetric = false ∧ scope.evaluate m = .ok c ∧
    p ∈ c.projections

/-- A dimension projects its own expression under its own label. -/
theorem projections_of_evaluate {m : Member} (hm : scope.repository.IsMember m)
    (hdimension : m.isMetric = false) {c : Compiled} (h : scope.evaluate m = .ok c) :
    c.projections = [⟨m.model.name, m.label, c.sql⟩] := by
  rw [evaluate_eq_evaluateOn hm] at h
  generalize scope.repository.memberCount = bound at h
  -- The bound is large enough for one member at least, since the evaluation has a value.
  cases bound with
  | zero => cases h
  | succ bound =>
    rw [evaluateOn, if_neg List.not_mem_nil] at h
    cases m with
    | dimension model d =>
      obtain ⟨sql, -, h⟩ := exists_ok_of_bind h
      obtain rfl := Except.ok.inj h
      rfl
    | granularity model d g =>
      obtain ⟨parent, -, h⟩ := exists_ok_of_bind h
      obtain ⟨compiled, -, h⟩ := exists_ok_of_bind h
      obtain rfl := Except.ok.inj h
      rfl
    | metric model x | aggregate model d a => cases hdimension

/-- Columns of dimensions under one label are the same column. -/
theorem IsDimensionColumn.eq_of_label (hr : scope.repository.UnambiguousNames) {p q : Projection}
    (hp : scope.IsDimensionColumn p) (hq : scope.IsDimensionColumn q) (h : p.label = q.label) :
    p = q := by
  obtain ⟨m, c, hm, hdimension, hc, hp⟩ := hp
  obtain ⟨m', c', hm', hdimension', hc', hq⟩ := hq
  rw [projections_of_evaluate hm hdimension hc, List.mem_singleton] at hp
  rw [projections_of_evaluate hm' hdimension' hc', List.mem_singleton] at hq
  subst hp hq
  have hpath : m.path = m'.path :=
    Repository.path_eq_of_labelOf_eq hr hm.member_path hm'.member_path h
  -- One path names one member, and it has one definition.
  have hmember := hm'.member_path
  rw [← hpath, hm.member_path] at hmember
  obtain rfl := Except.ok.inj hmember
  obtain rfl := Except.ok.inj (hc.symm.trans hc')
  rfl

end CompileScope

/-! ## The segment of a metric -/

namespace Expansion

/-- Metrics of different segments have different labels. -/
def MetricsApart (e : Expansion) : Prop :=
  ∀ s ∈ e.segments, ∀ m ∈ s.metrics, ∀ s' ∈ e.segments, ∀ m' ∈ s'.metrics,
    m.label = m'.label → s.label = s'.label

/-- The layout of the root finds every metric in its own segment. -/
theorem segmentOf?_eq {e : Expansion} (hapart : e.MetricsApart) {s : Segment} (hs : s ∈ e.segments)
    {m : Member} (hm : m ∈ s.metrics) : e.rootLayout.segmentOf? m.label = some s.label := by
  cases hfound : e.rootLayout.segmentOf? m.label with
  | none =>
    rw [RootLayout.segmentOf?, List.lookup_eq_none_iff, rootLayout_eq] at hfound
    have hplaced := hfound (m.label, s.label) (List.mem_reverse.2 (List.mem_flatMap.2
      ⟨s, hs, List.mem_map_of_mem hm⟩))
    simp at hplaced
  | some label =>
    obtain ⟨s', hs', rfl, m', hm', hlabel⟩ := e.exists_metric_of_segmentOf? hfound
    exact congrArg some (hapart s' hs' m' hm' s hs m hm hlabel)

end Expansion

namespace CompileScope

variable {scope : CompileScope}

/-- Metrics of an expansion with one label are the same metric. -/
theorem IsExpansion.eq_of_label (hr : scope.repository.UnambiguousNames) {query : Query}
    {e : Expansion} (h : scope.IsExpansion query e) {s s' : Segment} (hs : s ∈ e.segments)
    (hs' : s' ∈ e.segments) {m m' : Member} (hm : m ∈ s.metrics) (hm' : m' ∈ s'.metrics)
    (hlabel : m.label = m'.label) : m = m' ∧ s = s' := by
  have hmember := (h.isMember_of_metric hs hm).member_path
  have hmember' := (h.isMember_of_metric hs' hm').member_path
  have hpath : m.path = m'.path := Repository.path_eq_of_labelOf_eq hr hmember hmember' hlabel
  rw [← hpath, hmember] at hmember'
  exact ⟨Except.ok.inj hmember', h.segment_eq_of_path hs hs' hm hm' hpath⟩

/-- Where names leave no doubt, metrics of different segments have different labels. -/
theorem IsExpansion.metricsApart (hr : scope.repository.UnambiguousNames) {query : Query}
    {e : Expansion} (h : scope.IsExpansion query e) : e.MetricsApart :=
  fun _ hs _ hm _ hs' _ hm' hlabel =>
    congrArg Segment.label (h.eq_of_label hr hs hs' hm hm' hlabel).2

/-- Where names leave no doubt, different paths have different labels. So no column of a dimension is
left out for that of another one, and the layout of the root has each metric under a label of its
own. -/
theorem label_identifies_member (hr : scope.repository.UnambiguousNames) :
    (∀ p q m m', scope.repository.member p = .ok m → scope.repository.member q = .ok m' → p ≠ q →
      labelOf p ≠ labelOf q) ∧
    (∀ found added p, p ∈ added → scope.IsDimensionColumn p → p ∈ mergeProjections found added ∨
      ∃ kept ∈ mergeProjections found added, kept.key = p.key ∧ ¬scope.IsDimensionColumn kept) ∧
    (∀ query e, scope.expand query = .ok e → ∀ s ∈ e.segments, ∀ m ∈ s.metrics,
      e.rootLayout.segmentOf? m.label = some s.label ∧
        ∀ s' ∈ e.segments, ∀ m' ∈ s'.metrics, m'.label = m.label → m' = m) := by
  refine ⟨fun p q m m' hp hq hne hlabel => ?_, fun found added p hp hcolumn => ?_, ?_⟩
  · exact hne (Repository.path_eq_of_labelOf_eq hr hp hq hlabel)
  · have hkeys : p.key ∈ (mergeProjections found added).map Projection.key :=
      mem_keys_addAllNewBy (.inr hp)
    obtain ⟨kept, hkept, hkey⟩ := List.mem_map.1 hkeys
    by_cases hdimension : scope.IsDimensionColumn kept
    · obtain rfl := hdimension.eq_of_label hr hcolumn (congrArg Prod.snd hkey)
      exact .inl hkept
    · exact .inr ⟨kept, hkept, hkey, hdimension⟩
  · intro query e he s hs m hm
    have h := isExpansion_of_expand he
    refine ⟨Expansion.segmentOf?_eq (h.metricsApart hr) hs hm, fun s' hs' m' hm' hlabel => ?_⟩
    exact (h.eq_of_label hr hs' hs hm' hm hlabel).1

/-! ## Names with underscores -/

/-- Two counted models, with names that hold underscores. -/
private def counted (model dimension metric other otherMetric : String) : CompileScope where
  repository := {
    models := [
      { name := model
        source := .table "t"
        dimensions := [
          { name := "id", primaryKey := true },
          { name := "made", type := .date },
          { name := dimension }]
        metrics := [⟨metric, none, fun _ => [.sql "count(", .column "id", .sql ")"]⟩] },
      { name := other
        source := .table "u"
        dimensions := [{ name := "id", primaryKey := true }]
        metrics := [⟨otherMetric, none, fun _ => [.sql "count(", .column "id", .sql ")"]⟩] }]
    joins := [
      { origin := model
        target := other
        cardinality := .manyToOne
        condition := fun s => [s.originDimension "id", .sql " = ", s.targetDimension "id"] }] }
  dialect := .ansi
  context := .null
  now := ⟨⟨2024, 1, 1⟩, .midnight⟩

/-- Names that end with an underscore, or hold two of them in a row. -/
private def underscored : CompileScope := counted "a_" "made__month" "b__c" "a__b_" "c"

/-- Names that hold what stands for a point in a label. -/
def confused : CompileScope := counted "a" "made___month" "b___c" "a___b" "c"

/-- The segments of an expansion with the paths of their metrics. -/
private def segmentPaths (e : Expansion) : List (String × List String) :=
  e.segments.map fun s => (s.label, s.metrics.map (·.path))

/-- Underscores within names leave no doubt. -/
theorem label_identifies_member_underscored : ∃ e, underscored.repository.UnambiguousNames ∧
    labelOf "a_.made.month" ≠ labelOf "a_.made__month" ∧
    underscored.expand { dimensions := ["a_.id"], metrics := ["a_.b__c", "a__b_.c"] } = .ok e ∧
    segmentPaths e = [("s0", ["a_.b__c"]), ("s1", ["a__b_.c"])] ∧
    ∀ s ∈ e.segments, ∀ m ∈ s.metrics, e.rootLayout.segmentOf? m.label = some s.label := by
  have hr : underscored.repository.UnambiguousNames := by decide +kernel
  obtain ⟨hlabels, -, hlayout⟩ := label_identifies_member hr
  have hrun : (underscored.expand
      { dimensions := ["a_.id"], metrics := ["a_.b__c", "a__b_.c"] }).toOption.map segmentPaths =
      some [("s0", ["a_.b__c"]), ("s1", ["a__b_.c"])] := by decide +kernel
  obtain ⟨e, he, hpaths⟩ := exists_ok_of_toOption_map hrun
  refine ⟨e, hr, hlabels _ _ _ _ rfl rfl (by decide +kernel), he, hpaths, fun s hs m hm => ?_⟩
  exact (hlayout _ e he s hs m hm).1

/-- Validated declarations in which labels are mistaken for each other: two paths have one label, the
column of a dimension is left out for the month of another one, and the root looks for a metric in
the segment of another one. -/
theorem label_mistakes_member :
    Repository.build confused.repository.models confused.repository.joins =
      .ok confused.repository ∧
    (∃ m m', confused.repository.member "a.b___c" = .ok m ∧
      confused.repository.member "a___b.c" = .ok m' ∧ labelOf "a.b___c" = labelOf "a___b.c") ∧
    (∃ p q, confused.IsDimensionColumn p ∧ confused.IsDimensionColumn q ∧ p.sql ≠ q.sql ∧
      mergeProjections [p] [q] = [p]) ∧
    ∃ e, confused.expand { dimensions := ["a.id"], metrics := ["a.b___c", "a___b.c"] } = .ok e ∧
      segmentPaths e = [("s0", ["a.b___c"]), ("s1", ["a___b.c"])] ∧
      e.rootLayout.segmentOf? (labelOf "a.b___c") = some "s1" := by
  refine ⟨rfl, ?_, ?_, ?_⟩
  · exact ⟨_, _, rfl, rfl, by decide +kernel⟩
  · have hmonth : ∃ m, confused.repository.member "a.made.month" = .ok m ∧ m.isMetric = false ∧
        (confused.evaluate m).toOption.map (·.projections) =
          some [⟨"a", "a___made___month", Sql.Dialect.granularity .ansi .month
            (.ofColumn "a" "made" "\"a\".\"made\"")⟩] := ⟨_, rfl, rfl, by decide +kernel⟩
    have hcolumn : ∃ m, confused.repository.member "a.made___month" = .ok m ∧ m.isMetric = false ∧
        (confused.evaluate m).toOption.map (·.projections) =
          some [⟨"a", "a___made___month",
            .ofColumn "a" "made___month" "\"a\".\"made___month\""⟩] :=
      ⟨_, rfl, rfl, by decide +kernel⟩
    obtain ⟨m, hm, hdimension, hrun⟩ := hmonth
    obtain ⟨c, hc, hprojections⟩ := exists_ok_of_toOption_map hrun
    obtain ⟨m', hm', hdimension', hrun'⟩ := hcolumn
    obtain ⟨c', hc', hprojections'⟩ := exists_ok_of_toOption_map hrun'
    refine ⟨_, _, ⟨m, c, ⟨_, hm⟩, hdimension, hc, hprojections ▸ List.mem_singleton_self _⟩,
      ⟨m', c', ⟨_, hm'⟩, hdimension', hc', hprojections' ▸ List.mem_singleton_self _⟩, ?_, ?_⟩
    · decide +kernel
    · decide +kernel
  · have hrun : (confused.expand
        { dimensions := ["a.id"], metrics := ["a.b___c", "a___b.c"] }).toOption.map (fun e =>
          (segmentPaths e, e.rootLayout.segmentOf? (labelOf "a.b___c"))) =
        some ([("s0", ["a.b___c"]), ("s1", ["a___b.c"])], some "s1") := by decide +kernel
    obtain ⟨e, he, hfound⟩ := exists_ok_of_toOption_map hrun
    obtain ⟨hpaths, hsegment⟩ := Prod.mk.inj hfound
    exact ⟨e, he, hpaths, hsegment⟩

end CompileScope

end MetricLayer
