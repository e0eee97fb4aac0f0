import MetricLayer.Proofs.Compile.Columns

/-!
# Assembled statements are in scope

Every column that an assembled statement reads is one of a source that stands where it is read. A
model reads its own source, a segment the statements of its models and the root the statements of
the segments; join conditions read what is joined already and the source that is being joined.

- `CompileScope.SegmentScoped` — the models of a segment are joined one after the other, each once,
  and project what is read from them;
- `CompileScope.scoped_of_statementWithin` — all levels of a statement are in scope.
-/

namespace MetricLayer

open Sql (Fragment Statement Source JoinClause InScope JoinsScoped)

/-- A needed column is one of a model of the segment, whose statement selects it. -/
def Segment.Provides (s : Segment) (st : Statement) (p : Projection) : Prop :=
  p.model ∈ s.tree.models ∧
    ∃ model ∈ st.inputs, model.label = some p.model ∧ some p.label ∈ model.select.map (·.label)

namespace CompileScope

/-- The statement of a segment introduces each model of the segment's tree once, starting with the
anchor, and reads from the models only what their statements select. -/
structure SegmentScoped (scope : CompileScope) (e : Expansion) (s : Segment) (st : Statement) :
    Prop where
  label : st.label = some s.label
  /-- Every model of the tree is the anchor or the child of one join. -/
  models : (s.anchor :: s.joins.map (·.child)).Perm s.tree.models
  nodup : s.tree.models.Nodup
  /-- Every join starts at the anchor or at the child of an earlier join. -/
  parents : GrowFrom [s.anchor] (s.joins.map (·.toOrientedJoin))
  /-- The sources are the statements of these models, in order. -/
  sources : st.sources = st.inputs.map .statement
  inputs : List.Forall₂ (fun name model => model.ScopedTo name)
    (s.anchor :: s.joins.map (·.child)) st.inputs
  members : ∀ m ∈ e.membersOf s, ∃ c, scope.evaluate m = .ok c ∧ ∀ p ∈ c.projections, s.Provides st p
  conditions : ∀ j ∈ s.joins, ∃ declared condition,
    scope.repository.join? j.join = some declared ∧
    scope.resolver.joinCondition scope declared = .ok condition ∧
    ∀ p ∈ condition.2, s.Provides st p
  inScope : st.Scoped

variable {scope : CompileScope} {predicates : PredicateScope}

/-! ## Segments -/

/-- A column that is read from a model is in scope where the statement of the model is a source. -/
private theorem inScope_of_models {columns : List Projection} {conditions : String → List Fragment}
    {names : List String} {statements : List Statement}
    (h : List.Forall₂ (fun name model => scope.IsModelStatement columns name (conditions name) model)
      names statements)
    {reference : String × String} (hreference : reference ∈ columns.map Projection.key)
    (hname : reference.1 ∈ names) : InScope (statements.map .statement) reference := by
  obtain ⟨model, hmem, hmodel⟩ := exists_mem_of_forall₂ h.flip hname
  refine ⟨.statement model, List.mem_map_of_mem hmem, hmodel.label, ?_⟩
  exact hmodel.mem_select hreference rfl

section Segments

variable {query : Query} {e : Expansion} (he : scope.IsExpansion query e) {label : String}
  {group : SegmentGroup} {s : Segment}
  (hs : scope.IsSegment label group e.dimensions e.conjuncts s) (hr : scope.repository.Valid)
  {found : SegmentConditions} {conditions : List (Fragment × List Projection)} {st : Statement}
  (h : scope.IsSegmentStatement predicates e s found conditions st)

include hs

/-- The condition of a join reads the model that it leads to and one that stands before it. -/
private theorem joinsScoped_of_growFrom {joins : List SegmentJoin} {clauses : List JoinClause}
    (hclauses : List.Forall₂ (scope.IsJoinClause found conditions) clauses joins)
    (hjoins : ∀ j ∈ joins, j ∈ s.joins) {known : List String} {before : List Statement}
    (hbefore : List.Forall₂ (fun name model => scope.IsModelStatement (readColumns found conditions)
      name (found.pushedTo name) model) known before)
    (hgrow : GrowFrom known (joins.map (·.toOrientedJoin))) :
    JoinsScoped (before.map .statement) clauses := by
  induction hclauses generalizing known before with
  | nil => trivial
  | @cons clause j clauses joins hclause _ ih =>
    obtain ⟨hj, hrest⟩ := List.forall_mem_cons.1 hjoins
    obtain ⟨hparent, -, hgrow⟩ := hgrow
    obtain ⟨declared, condition, model, hdeclared, hcondition, hmem, hmodel, rfl⟩ := hclause
    have hscoped := conditionScoped_of_joinCondition hcondition
    have hnext := List.rel_append hbefore (.cons hmodel .nil)
    have hsources : before.map Source.statement ++ [.statement model] =
        (before ++ [model]).map .statement := by simp
    refine ⟨?_, ?_⟩
    · intro f hf reference hreference
      obtain rfl := Option.some.inj hf
      obtain ⟨p, hp, hkey⟩ := List.mem_map.1 (hscoped.columns reference hreference)
      rw [hsources]
      refine inScope_of_models hnext ?_ ?_
      · exact mem_keys_mergeProjections (.inr (List.mem_map.2
          ⟨p, List.mem_flatMap.2 ⟨condition, hmem, hp⟩, hkey⟩))
      · -- The two models of the declared join are the parent and the child.
        have hparent : j.parent ∈ known := hparent
        have hmodels := (hscoped.projections p hp).1
        have hends := hs.ends_of_mem_joins hj hdeclared
        rw [← hkey, List.mem_append, List.mem_singleton]
        change p.model ∈ known ∨ p.model = j.child
        grind
    · rw [hsources]
      exact ih hrest hnext hgrow

include he h hr

/-- A column that members or joins of the segment need is provided. -/
private theorem provides_of_mem_keys (hmem : s ∈ e.segments) {p : Projection}
    (hp : p.key ∈ (readColumns found conditions).map Projection.key) : s.Provides st p := by
  obtain ⟨q, hq, hkey⟩ := List.mem_map.1 hp
  have hmodel : q.model = p.model := congrArg Prod.fst hkey
  have htree : p.model ∈ s.tree.models := hmodel ▸ (h.of_mem_readColumns he hs hr hmem hq).1
  have hname : p.model ∈ s.anchor :: s.joins.map (·.child) := (hs.perm_models hr).mem_iff.2 htree
  obtain ⟨model, hmodel, hstatement⟩ := exists_mem_of_forall₂ h.forall₂_inputs.flip hname
  exact ⟨htree, model, hmodel, hstatement.label, hstatement.mem_select hp rfl⟩

/-- Provided columns are in scope in the statement of the segment. -/
private theorem inScope_of_mem_keys (hmem : s ∈ e.segments) {reference : String × String}
    (hreference : reference ∈ (readColumns found conditions).map Projection.key) :
    InScope st.sources reference := by
  obtain ⟨p, hp, rfl⟩ := List.mem_map.1 hreference
  obtain ⟨-, model, hmodel, hlabel, hselect⟩ :=
    provides_of_mem_keys he hs hr h hmem (List.mem_map_of_mem hp)
  rw [h.sources_eq]
  exact ⟨.statement model, List.mem_map_of_mem hmodel, hlabel, hselect⟩

/-- What a member reads at the level of the segment is in scope. -/
private theorem readsFrom_of_segmentSql (hmem : s ∈ e.segments) {m : Member}
    (hm : m ∈ e.dimensions ++ s.metrics) {f : Fragment}
    (hf : scope.resolver.segmentSql scope m = .ok f) : f.ReadsFrom st.sources := by
  intro reference hreference
  have hgathered := h.gathered he hs hmem
  have hmember : scope.repository.IsMember m := by
    rcases List.mem_append.1 hm with hm | hm
    · exact he.isMember_of_dimension hm
    · exact he.isMember_of_metric hmem hm
  obtain ⟨c, hc, hkeys⟩ := hgathered.members m (List.mem_append_left _ hm)
  obtain ⟨p, hp, hkey⟩ := List.mem_map.1 (mem_keys_of_segmentSql hmember hc hf reference hreference)
  refine inScope_of_mem_keys he hs hr h hmem ?_
  rw [← hkey]
  exact mem_keys_mergeProjections (.inl (hkeys p hp))

/-- What is read in the statement of a segment is in scope. -/
private theorem IsSegmentStatement.scoped_statement (hmem : s ∈ e.segments) : st.Scoped := by
  -- The labels of the sources differ; then the joins, the columns, the conditions, the groups and
  -- the order are in scope one by one.
  obtain ⟨anchor, hanchor, hsource⟩ := h.source
  refine ⟨?_, ?_, ?_, ?_, ?_, ?_⟩
  · have hlabels : st.sources.map Source.label? = st.inputs.map (·.label) := by
      rw [h.sources_eq, List.map_map]
      rfl
    have hnodup := hs.growFrom.nodup (List.nodup_singleton s.anchor)
    rw [List.map_map] at hnodup
    rw [hlabels, h.labels_inputs]
    exact hnodup.map (Option.some_injective String)
  · rw [hsource]
    exact joinsScoped_of_growFrom hs h.joins (fun _ hj => hj) (.cons hanchor .nil) hs.growFrom
  · intro item hitem
    obtain ⟨m, hm, hsql⟩ := exists_mem_of_forall₂ h.select hitem
    obtain ⟨f, hf, hsql⟩ := exists_ok_of_bind hsql
    obtain rfl := Except.ok.inj hsql
    exact readsFrom_of_segmentSql he hs hr h hmem hm hf
  · intro f hf reference hreference
    rw [h.filters] at hf
    have hown := (h.gathered he hs hmem).own f hf reference hreference
    exact inScope_of_mem_keys he hs hr h hmem (mem_keys_mergeProjections (.inl hown))
  · intro f hf
    obtain ⟨m, hm, hgroup⟩ := h.groupBy f hf
    unfold Resolver.segmentGroup at hgroup
    split_ifs at hgroup
    · cases hgroup
    · obtain ⟨f', hf', hgroup⟩ := exists_ok_of_bind hgroup
      obtain rfl := Option.some.inj (Except.ok.inj hgroup)
      exact readsFrom_of_segmentSql he hs hr h hmem (List.mem_append_left _ hm) hf'
  · rw [h.orderBy]
    exact nofun

omit hr in
/-- The statement of a segment is scoped. -/
theorem IsSegmentStatement.segmentScoped {models : List Model} {joins : List Join}
    (hbuild : Repository.build models joins = .ok scope.repository) (hmem : s ∈ e.segments) :
    scope.SegmentScoped e s st := by
  have hr := Repository.valid_of_build hbuild
  have hgathered := h.gathered he hs hmem
  refine ⟨h.label, hs.perm_models hr, (hs.isTree hr).models, hs.growFrom, h.sources_eq, ?_, ?_, ?_,
    h.scoped_statement he hs hr hmem⟩
  · refine h.forall₂_inputs.imp fun name model hmodel => hmodel.scopedTo hbuild ?_ ?_
    · exact fun p hp => (h.of_mem_readColumns he hs hr hmem hp).2
    · intro f hf
      obtain ⟨x, hx, rfl⟩ := List.mem_map.1 hf
      obtain ⟨hx, hname⟩ := List.mem_filter.1 hx
      exact of_decide_eq_true hname ▸ hgathered.pushed x hx
  · intro m hm
    obtain ⟨c, hc, hkeys⟩ := hgathered.members m hm
    refine ⟨c, hc, fun p hp => provides_of_mem_keys he hs hr h hmem ?_⟩
    exact mem_keys_mergeProjections (.inl (hkeys p hp))
  · intro j hj
    obtain ⟨condition, hcondition, declared, hdeclared, hjoin⟩ :=
      exists_mem_of_forall₂ h.joined.flip hj
    refine ⟨declared, condition, hdeclared, hjoin, fun p hp => ?_⟩
    refine provides_of_mem_keys he hs hr h hmem (mem_keys_mergeProjections (.inr ?_))
    exact List.mem_map_of_mem (List.mem_flatMap.2 ⟨condition, hcondition, hp⟩)

end Segments

end CompileScope

/-! ## The root -/

/-- What is read by the first of several columns is read by one of them. -/
private theorem mem_references_of_coalesce {fs : List Fragment} {reference : String × String}
    (h : reference ∈ (coalesce fs).references) : ∃ f ∈ fs, reference ∈ f.references := by
  unfold coalesce at h
  split at h
  · exact ⟨_, List.mem_cons_self, h⟩
  · simpa using h

namespace CompileScope

variable {scope : CompileScope} {predicates : PredicateScope}

/-- The statement of a segment has the segment's name and selects the dimensions and the segment's
metrics under their names. -/
private def Selects (e : Expansion) (s : Segment) (st : Statement) : Prop :=
  st.label = some s.label ∧ ∀ m ∈ e.dimensions ++ s.metrics, some m.label ∈ st.select.map (·.label)

/-- The statement of a segment selects the dimensions and the metrics of the segment. -/
private theorem IsSegmentStatement.selects {e : Expansion} {s : Segment} {found : SegmentConditions}
    {conditions : List (Fragment × List Projection)} {st : Statement}
    (h : scope.IsSegmentStatement predicates e s found conditions st) : Selects e s st := by
  refine ⟨h.label, fun m hm => ?_⟩
  obtain ⟨item, hitem, hsql⟩ := exists_mem_of_forall₂ h.select.flip hm
  obtain ⟨f, -, hsql⟩ := exists_ok_of_bind hsql
  obtain rfl := Except.ok.inj hsql
  exact List.mem_map.2 ⟨_, hitem, rfl⟩

/-- What a segment selects can be read from its statement. -/
private theorem inScope_of_segments {e : Expansion} {segments : List Segment}
    {statements : List Statement} (h : List.Forall₂ (Selects e) segments statements) {s : Segment}
    (hs : s ∈ segments) {m : Member} (hm : m ∈ e.dimensions ++ s.metrics) :
    InScope (statements.map .statement) (s.label, m.label) := by
  obtain ⟨st, hst, hlabel, hselect⟩ := exists_mem_of_forall₂ h.flip hs
  exact ⟨.statement st, List.mem_map_of_mem hst, hlabel, hselect m hm⟩

/-- The condition of a merge reads the segments before it and the one that is merged. -/
private theorem readsFrom_mergeCondition {e : Expansion} {known : List Segment} {s : Segment}
    {statements : List Statement} (h : List.Forall₂ (Selects e) (known ++ [s]) statements) :
    (scope.mergeCondition e.dimensions (known.map (·.label)) s.label).ReadsFrom
      (statements.map .statement) := by
  intro reference hreference
  obtain ⟨sql, hsql, hreference⟩ := Fragment.mem_references_join.1 hreference
  obtain ⟨d, hd, rfl⟩ := List.mem_map.1 hsql
  have hin {s' : Segment} (hs' : s' ∈ known ++ [s]) :=
    inScope_of_segments h hs' (List.mem_append_left s'.metrics hd)
  simp only [Fragment.references_append, Fragment.references_ofText, List.append_nil,
    references_qualified, List.mem_append, List.mem_singleton] at hreference
  -- One side is the value so far, the other one that of the merged segment.
  rcases hreference with hreference | rfl
  · obtain ⟨g, hg, hreference⟩ := mem_references_of_coalesce hreference
    obtain ⟨name, hname, rfl⟩ := List.mem_map.1 hg
    obtain ⟨s', hs', rfl⟩ := List.mem_map.1 hname
    obtain rfl := List.mem_singleton.1 hreference
    exact hin (List.mem_append_left _ hs')
  · exact hin (List.mem_append_right _ (List.mem_singleton_self s))

/-- The condition of each merge reads segments that are there. -/
private theorem joinsScoped_of_rootJoins {e : Expansion} {segments : List Segment}
    {statements : List Statement} (h : List.Forall₂ (Selects e) segments statements)
    {known : List Segment} {before : List Statement}
    (hbefore : List.Forall₂ (Selects e) known before) :
    JoinsScoped (before.map .statement) (scope.rootJoins e.dimensions (known.map (·.label))
      ((segments.map (·.label)).zip statements)) := by
  induction h generalizing known before with
  | nil => trivial
  | @cons s st segments statements hst _ ih =>
    have hnext := List.rel_append hbefore (.cons hst .nil)
    have hsources : before.map Source.statement ++ [.statement st] =
        (before ++ [st]).map .statement := by simp
    have hrest := ih hnext
    rw [← hsources, List.map_append, List.map_singleton] at hrest
    rw [List.map_cons, List.zip_cons_cons, rootJoins]
    -- Without dimensions the segments stand side by side, and nothing is compared.
    by_cases hempty : e.dimensions.isEmpty
    · rw [if_pos hempty]
      exact ⟨fun _ hf => absurd hf (Option.not_mem_none _), hrest⟩
    · rw [if_neg hempty]
      refine ⟨fun f hf => ?_, hrest⟩
      obtain rfl := Option.some.inj hf
      rw [hsources]
      exact readsFrom_mergeCondition hnext

section Root

variable {query : Query} {e : Expansion} (he : scope.IsExpansion query e)
  {statements : List Statement} (h : List.Forall₂ (Selects e) e.segments statements)

include h

/-- What a member reads at the level of the root is in scope, provided that it is a metric or stands
for a requested dimension. -/
private theorem readsFrom_of_rootSql {m : Member}
    (hm : m.isMetric = false → ∃ d ∈ e.dimensions, d.label = m.label) {f : Fragment}
    (hf : (Resolver.rootSql scope e.rootLayout m : Result Fragment) = .ok f) :
    f.ReadsFrom (statements.map .statement) := by
  intro reference hreference
  unfold Resolver.rootSql at hf
  split_ifs at hf with hmetric
  · -- A metric is read from the segment that has it.
    split at hf
    · rename_i segment hsegment
      obtain rfl := Except.ok.inj hf
      obtain ⟨s, hs, rfl, m', hm', hlabel⟩ := e.exists_metric_of_segmentOf? hsegment
      obtain rfl := List.mem_singleton.1 hreference
      rw [← hlabel]
      exact inScope_of_segments h hs (List.mem_append_right _ hm')
    · cases hf
  · -- A dimension is read from all segments.
    obtain rfl := Except.ok.inj hf
    obtain ⟨d, hd, hlabel⟩ := hm (by simpa using hmetric)
    obtain ⟨g, hg, hreference⟩ := mem_references_of_coalesce hreference
    obtain ⟨name, hname, rfl⟩ := List.mem_map.1 hg
    rw [Expansion.segments_rootLayout] at hname
    obtain ⟨s, hs, rfl⟩ := List.mem_map.1 hname
    obtain rfl := List.mem_singleton.1 hreference
    rw [← hlabel]
    exact inScope_of_segments h hs (List.mem_append_left _ hd)

include he

/-- What is read in the root is in scope. -/
private theorem IsRootStatement.scoped_statement {st : Statement}
    (hroot : scope.IsRootStatement predicates e statements st) : st.Scoped := by
  have hsources := hroot.sources_eq h.length_eq
  refine ⟨?_, ?_, ?_, ?_, ?_, ?_⟩
  · have hlabels : st.sources.map Source.label? = (e.segments.map (·.label)).map some := by
      rw [hsources, List.map_map, List.map_map]
      exact map_eq_map_of_forall₂ (h.flip.imp fun inner s hinner => hinner.1)
    rw [hlabels]
    exact he.nodup_labels.map (Option.some_injective String)
  · rw [hroot.source, hroot.joins, Expansion.segments_rootLayout]
    generalize e.segments = segments at h
    cases h with
    | nil => trivial
    | cons hst hrest => exact joinsScoped_of_rootJoins hrest (.cons hst .nil)
  · intro item hitem
    obtain ⟨m, hm, hsql⟩ := exists_mem_of_forall₂ hroot.select hitem
    obtain ⟨f, hf, hsql⟩ := exists_ok_of_bind hsql
    obtain rfl := Except.ok.inj hsql
    rw [hsources]
    refine readsFrom_of_rootSql h (fun hplain => ?_) hf
    rcases List.mem_append.1 hm with hm | hm
    · exact ⟨m, hm, rfl⟩
    · rw [he.isMetric_of_metric hm] at hplain
      cases hplain
  · intro f hf reference hreference
    obtain ⟨c, hc, hcondition⟩ := exists_mem_of_forall₂ hroot.filters hf
    obtain ⟨hc, hlevel⟩ := List.mem_filter.1 hc
    obtain ⟨filter, hfilter⟩ := he.exists_isConjunct hc
    obtain ⟨m, hm, expr, hexpr, hmem⟩ :=
      exists_member_of_condition hfilter hcondition hreference
    rw [hsources]
    refine readsFrom_of_rootSql h (fun hplain => ?_) hexpr reference hmem
    -- A dimension in such a condition has been requested, and its path determines its column.
    obtain ⟨d, hd, hpath⟩ := List.mem_map.1 (he.known c hc (of_decide_eq_true hlevel) m hm hplain)
    exact ⟨d, hd, congrArg labelOf hpath⟩
  · rw [hroot.groupBy]
    exact nofun
  · intro o ho reference hreference
    obtain ⟨m, -, hexpr⟩ := hroot.orderBy o ho
    rw [hexpr, Fragment.references_ofText] at hreference
    cases hreference

omit he h in
/-- The root is ordered by columns that it selects. -/
private theorem IsRootStatement.exists_selected {st : Statement}
    (hroot : scope.IsRootStatement predicates e statements st) :
    ∀ o ∈ st.orderBy, ∃ label, some label ∈ st.select.map (·.label) ∧
      o.expr = .ofText (scope.quote label) := by
  intro o ho
  obtain ⟨m, hm, hexpr⟩ := hroot.orderBy o ho
  obtain ⟨item, hitem, hsql⟩ := exists_mem_of_forall₂ hroot.select.flip hm
  obtain ⟨f, -, hsql⟩ := exists_ok_of_bind hsql
  obtain rfl := Except.ok.inj hsql
  exact ⟨m.label, List.mem_map.2 ⟨_, hitem, rfl⟩, hexpr⟩

end Root

/-! ## The whole statement -/

/-- Over a validated repository every reference in an assembled statement is in scope: on the root, in
the statement of each segment and in those of its models. A query has its `statement` within its own
depth; the queries that are nested in it have theirs within a smaller one. -/
theorem scoped_of_statementWithin {models : List Model} {joins : List Join}
    (hbuild : Repository.build models joins = .ok scope.repository) {depth : Nat} {query : Query}
    {st : Statement} (h : scope.statementWithin depth query = .ok st) :
    ∃ e, scope.expand query = .ok e ∧ st.Scoped ∧ st.sources = st.inputs.map .statement ∧
      (∀ o ∈ st.orderBy, ∃ label, some label ∈ st.select.map (·.label) ∧
        o.expr = .ofText (scope.quote label)) ∧
      List.Forall₂ (scope.SegmentScoped e) e.segments st.inputs := by
  obtain ⟨predicates, e, segments, -, he, hsegments, hroot⟩ := exists_parts_of_statementWithin h
  have hexpansion := isExpansion_of_expand he
  have hselects : List.Forall₂ (Selects e) e.segments segments := by
    refine hsegments.imp fun s inner hinner => ?_
    obtain ⟨found, conditions, hstatement⟩ := hinner
    exact hstatement.selects
  rw [hroot.inputs_eq hsegments.length_eq]
  refine ⟨e, he, hroot.scoped_statement hexpansion hselects, hroot.sources_eq hsegments.length_eq,
    hroot.exists_selected, ?_⟩
  refine ((List.forall₂_and_left _ _).2 ⟨fun s (hs : s ∈ e.segments) => hs, hsegments⟩).imp
    fun s inner hinner => ?_
  obtain ⟨hs, found, conditions, hstatement⟩ := hinner
  obtain ⟨label, group, -, hsegment⟩ := hexpansion.exists_group hs
  exact hstatement.segmentScoped hexpansion hsegment hbuild hs

/-- Orders of a shop, by a join that keeps orders without a shop; both are counted. -/
private def storefront : CompileScope where
  repository := {
    models := [
      { name := "orders"
        source := .table "orders"
        dimensions := [{ name := "id", primaryKey := true }]
        metrics := [⟨"count", none, fun _ => [.sql "count(", .column "id", .sql ")"]⟩] },
      { name := "shop"
        source := .table "shop"
        dimensions := [{ name := "id", primaryKey := true }, { name := "name" }]
        metrics := [⟨"count", none, fun _ => [.sql "count(", .dimension "id", .sql ")"]⟩] }]
    joins := [
      { origin := "orders"
        target := "shop"
        cardinality := .manyToOne
        condition := fun s => [s.originDimension "id", .sql " = ", s.targetDimension "id"] }] }
  dialect := .ansi
  context := .null
  now := ⟨⟨2024, 1, 1⟩, .midnight⟩

/-- Two segments, of which the first one evaluates the condition itself. -/
private def countsByShop : Query where
  dimensions := ["shop.name"]
  metrics := ["orders.count", "shop.count"]
  filter := some (.leaf ⟨.set, "shop.id", none⟩)
  order := [⟨"orders.count", .desc⟩]

/-- The columns that join conditions and filters of a statement read. -/
private def conditionReferences (st : Statement) : List (List (String × String)) :=
  (st.joins.filterMap (·.condition) ++ st.filters).map (·.references)

/-- Two counts, merged on a dimension and compared across a join. -/
theorem scoped_of_statementWithin_countsByShop : ∃ st e,
    Repository.build storefront.repository.models storefront.repository.joins =
      .ok storefront.repository ∧
    storefront.statement countsByShop = .ok st ∧
    conditionReferences st = [[("s0", "shop___name"), ("s1", "shop___name")]] ∧
    st.inputs.flatMap conditionReferences =
      [[("orders", "orders___id"), ("shop", "shop___id")], [("shop", "shop___id")]] ∧
    storefront.expand countsByShop = .ok e ∧ st.Scoped ∧
    st.sources = st.inputs.map .statement ∧
    (∀ o ∈ st.orderBy, ∃ label, some label ∈ st.select.map (·.label) ∧
      o.expr = .ofText (storefront.quote label)) ∧
    List.Forall₂ (storefront.SegmentScoped e) e.segments st.inputs := by
  have hbuild : Repository.build storefront.repository.models storefront.repository.joins =
      .ok storefront.repository := rfl
  have hrun : (storefront.statement countsByShop).toOption.map (fun st =>
      (conditionReferences st, st.inputs.flatMap conditionReferences)) =
      some ([[("s0", "shop___name"), ("s1", "shop___name")]],
        [[("orders", "orders___id"), ("shop", "shop___id")], [("shop", "shop___id")]]) := by
    decide +kernel
  cases hst : storefront.statement countsByShop with
  | error err => rw [hst] at hrun; cases hrun
  | ok st =>
    rw [hst] at hrun
    obtain ⟨hroot, hsegments⟩ : _ ∧ _ := by
      simpa only [Except.toOption, Option.map_some, Option.some.injEq, Prod.mk.injEq] using hrun
    obtain ⟨e, he, hscoped, hsources, horder, hall⟩ := scoped_of_statementWithin hbuild hst
    exact ⟨st, e, hbuild, rfl, hroot, hsegments, he, hscoped, hsources, horder, hall⟩

end CompileScope

end MetricLayer
