import MetricLayer.Proofs.Compile.Assembly

/-!
# Where conditions end up

A filter is divided into conjuncts, and each of them is written down once: on the root where it
reads a metric, and otherwise once in every segment, either in the segment's own statement or in
the statement of one of its models.

- `CompileScope.Collected` — the conditions that the conjuncts taken so far have contributed;
- `CompileScope.Divides` — a segment divides conditions among its statements;
- `CompileScope.statement_conditions_once` — no conjunct is lost, none is written twice, and there is
  no other condition.
-/

namespace MetricLayer

open Sql (Fragment Statement)

namespace CompileScope

variable {scope : CompileScope} {predicates : PredicateScope}

/-- The given conditions are those of the given filters at a level, one for each and in order. -/
def HasConditions (scope : CompileScope) (predicates : PredicateScope) (level : Level)
    (filters : List Filter) (conditions : List Fragment) : Prop :=
  List.Forall₂ (fun f sql => predicates.predicate (fun path => do
    scope.resolver.filterSql scope level (← scope.repository.member path)) f = .ok sql)
      filters conditions

/-- The filters whose conditions have the given place. -/
def placedAt (place : Placement) (sites : List (Filter × Placement)) : List Filter :=
  (sites.filter (·.2 = place)).map (·.1)

/-- One more site counts at its own place only. -/
@[simp]
theorem placedAt_snoc (place place' : Placement) (f : Filter) (sites : List (Filter × Placement)) :
    placedAt place (sites ++ [(f, place')]) =
      if place' = place then placedAt place sites ++ [f] else placedAt place sites := by
  unfold placedAt
  split_ifs with h <;> simp [h]

/-- One more filter with its condition comes last. -/
theorem HasConditions.snoc {level : Level} {filters : List Filter} {conditions : List Fragment}
    (h : scope.HasConditions predicates level filters conditions) {c : Conjunct} {sql : Fragment}
    (hc : scope.condition predicates level c = .ok sql) :
    scope.HasConditions predicates level (filters ++ [c.filter]) (conditions ++ [sql]) :=
  List.rel_append h (.cons hc .nil)

/-- A segment divides the conditions of the given filters among its statements: each has one place,
and there are no other conditions. -/
def Divides (scope : CompileScope) (predicates : PredicateScope) (filters : List Filter)
    (st : Statement) : Prop :=
  ∃ sites : List (Filter × Placement), sites.map (·.1) = filters ∧
    scope.HasConditions predicates .segment (placedAt .segment sites) st.filters ∧
    (st.inputs.map (·.label)).Nodup ∧
    (∀ model ∈ st.inputs, ∃ name, model.label = some name ∧ model.inputs = [] ∧
      scope.HasConditions predicates .model (placedAt (.model name) sites) model.filters) ∧
    ∀ f name, (f, .model name) ∈ sites → some name ∈ st.inputs.map (·.label)

/-! ## The conditions of a segment -/

/-- The conditions that conjuncts have contributed at their places. -/
structure Collected (scope : CompileScope) (predicates : PredicateScope)
    (sites : List (Filter × Placement)) (found : SegmentConditions) : Prop where
  own : scope.HasConditions predicates .segment (placedAt .segment sites) found.own
  pushed (name : String) :
    scope.HasConditions predicates .model (placedAt (.model name) sites) (found.pushedTo name)

/-- One more conjunct contributes one condition at its place, behind those that are there. -/
theorem Collected.addCondition {sites : List (Filter × Placement)} {found found' : SegmentConditions}
    (h : scope.Collected predicates sites found) {conjuncts : List Conjunct} {placed : PlacedFilter}
    {c : Conjunct} (hc : conjuncts[placed.conjunct]? = some c)
    (hadd : scope.addCondition predicates conjuncts found placed = .ok found') :
    scope.Collected predicates (sites ++ [(c.filter, placed.placement)]) found' := by
  unfold CompileScope.addCondition at hadd
  rw [hc] at hadd
  cases hplace : placed.placement with
  | model name =>
    simp only [hplace] at hadd
    obtain ⟨condition, hcondition, hadd⟩ := exists_ok_of_bind hadd
    obtain rfl := Except.ok.inj hadd
    refine ⟨by simpa using h.own, fun name' => ?_⟩
    by_cases hname : name = name'
    · -- The condition comes last among those of its model; all other models keep theirs.
      subst hname
      simpa [SegmentConditions.pushedTo] using (h.pushed name).snoc hcondition
    · simpa [SegmentConditions.pushedTo, hname] using h.pushed name'
  | segment =>
    simp only [hplace] at hadd
    obtain ⟨needed, -, hadd⟩ := exists_ok_of_bind hadd
    obtain ⟨condition, hcondition, hadd⟩ := exists_ok_of_bind hadd
    obtain rfl := Except.ok.inj hadd
    refine ⟨by simpa using h.own.snoc hcondition, fun name => ?_⟩
    simpa [SegmentConditions.pushedTo] using h.pushed name

/-- Every conjunct of a segment contributes one condition at its place. -/
theorem collected_of_foldlM {conjuncts : List Conjunct} {cs : List Conjunct}
    {filters : List PlacedFilter}
    (hfilters : List.Forall₂ (fun c p => conjuncts[p.conjunct]? = some c) cs filters)
    {sites : List (Filter × Placement)} {found found' : SegmentConditions}
    (h : scope.Collected predicates sites found)
    (hrun : filters.foldlM (scope.addCondition predicates conjuncts) found = .ok found') :
    scope.Collected predicates
      (sites ++ (cs.map (·.filter)).zip (filters.map (·.placement))) found' := by
  induction hfilters generalizing sites found with
  | nil =>
    obtain rfl := Except.ok.inj hrun
    simpa using h
  | cons hc _ ih =>
    rw [List.foldlM_cons] at hrun
    obtain ⟨next, hnext, hrun⟩ := exists_ok_of_bind hrun
    simpa using ih (h.addCondition hc hnext) hrun

/-- The conjuncts inside segments are those on dimensions, in order. -/
private theorem map_innerConjuncts (conjuncts : List Conjunct) :
    (innerConjuncts conjuncts).map (·.1) = conjuncts.filter (·.level = .dimension) := by
  unfold innerConjuncts
  conv_rhs => rw [← List.zipIdx_map_fst 0 conjuncts, List.filter_map]
  rfl

/-- The statement of a segment divides the conditions that read dimensions only. -/
theorem divides_of_isSegmentStatement {label : String} {group : SegmentGroup} {e : Expansion}
    {s : Segment} (hs : scope.IsSegment label group e.dimensions e.conjuncts s)
    {found : SegmentConditions} {conditions : List (Fragment × List Projection)} {st : Statement}
    (h : scope.IsSegmentStatement predicates e s found conditions st) :
    scope.Divides predicates ((e.conjuncts.filter (·.level = .dimension)).map (·.filter)) st := by
  obtain ⟨read, -, hrun⟩ := h.collected
  -- The conjuncts on dimensions stand at the positions that their places remember.
  have hpositions : List.Forall₂ (fun c p => e.conjuncts[p.conjunct]? = some c)
      ((innerConjuncts e.conjuncts).map (·.1)) s.filters := by
    rw [List.forall₂_map_left_iff]
    refine ((List.forall₂_and_left _ _).2 ⟨fun x hx => ?_, hs.filters⟩).imp
      fun x p hx => hx.2.1 ▸ hx.1
    exact List.mk_mem_zipIdx_iff_getElem?.1 (List.mem_filter.1 hx).1
  have hstart : scope.Collected predicates [] ⟨mergeProjections [] read, [], []⟩ :=
    ⟨List.Forall₂.nil, fun _ => List.Forall₂.nil⟩
  have hcollected := collected_of_foldlM hpositions hstart hrun
  rw [List.nil_append] at hcollected
  have hlabels := h.labels_inputs
  refine ⟨_, ?_, h.filters ▸ hcollected.own, ?_, ?_, ?_⟩
  · have hlength := hpositions.length_eq
    rw [List.map_fst_zip (by simp at hlength ⊢; omega), map_innerConjuncts]
  · rw [hlabels]
    have hnodup := hs.growFrom.nodup (List.nodup_singleton s.anchor)
    rw [List.map_map] at hnodup
    exact hnodup.map (Option.some_injective String)
  · intro model hmodel
    obtain ⟨name, -, hstatement⟩ := exists_mem_of_forall₂ h.forall₂_inputs hmodel
    refine ⟨name, hstatement.label, hstatement.inputs_eq_nil, ?_⟩
    rw [hstatement.filters]
    exact hcollected.pushed name
  · intro f name hsite
    obtain ⟨p, hp, hplace⟩ := List.mem_map.1 (List.of_mem_zip hsite).2
    rw [hlabels]
    refine List.mem_map_of_mem (List.mem_cons.2 ?_)
    rcases hs.of_placed_model hp hplace with hanchor | ⟨j, hj, -, hchild⟩
    · exact .inl hanchor
    · exact .inr (List.mem_map.2 ⟨j, hj, hchild⟩)

/-! ## The whole statement -/

/-- The conjuncts of a query. -/
def conjunctsOf (query : Query) : List Filter :=
  (query.filter.map Filter.conjuncts).getD []

/-- The conjuncts that are evaluated at a level. -/
private theorem filter_level {filters : List Filter} {conjuncts : List Conjunct}
    (h : List.Forall₂ scope.IsConjunct filters conjuncts) :
    (conjuncts.filter (·.level = .root)).map (·.filter) = filters.filter scope.readsMetric ∧
      (conjuncts.filter (·.level = .dimension)).map (·.filter) =
        filters.filter (!scope.readsMetric ·) := by
  induction h with
  | nil => exact ⟨rfl, rfl⟩
  | cons hc _ ih =>
    rw [List.filter_cons, List.filter_cons, List.filter_cons, List.filter_cons, hc.level]
    split_ifs <;> simp_all [hc.filter]

/-- Every conjunct of a query's filter is written down where it belongs, once and in order, and
there are no other conditions: those that read a metric on the root, all others once in each
segment, there in the segment's own statement or in that of one of its models. -/
theorem statement_conditions_once {query : Query} {st : Statement}
    (h : scope.statement query = .ok st) : ∃ e, scope.expand query = .ok e ∧
      scope.HasConditions (scope.predicatesOf query) (.root e.rootLayout)
        ((conjunctsOf query).filter scope.readsMetric) st.filters ∧
      List.Forall₂ (fun s inner => inner.label = some s.label ∧
        scope.Divides (scope.predicatesOf query)
          ((conjunctsOf query).filter (!scope.readsMetric ·)) inner) e.segments st.inputs := by
  obtain ⟨e, segments, he, hsegments, hroot⟩ := exists_parts_of_statement h
  have hexpansion := isExpansion_of_expand he
  obtain ⟨hmetric, hplain⟩ := filter_level hexpansion.conjuncts
  refine ⟨e, he, ?_, ?_⟩
  · unfold conjunctsOf
    rw [← hmetric]
    exact List.forall₂_map_left_iff.2 hroot.filters
  · rw [hroot.inputs_eq hsegments.length_eq]
    refine ((List.forall₂_and_left _ _).2 ⟨fun s (hs : s ∈ e.segments) => hs, hsegments⟩).imp
      fun s inner hinner => ?_
    obtain ⟨hs, found, conditions, hstatement⟩ := hinner
    obtain ⟨label, group, -, hsegment⟩ := hexpansion.exists_group hs
    unfold conjunctsOf
    rw [← hplain]
    exact ⟨hstatement.label, divides_of_isSegmentStatement hsegment hstatement⟩

/-- Orders of a shop, by a join that keeps orders without a shop. -/
private def shopOrders : CompileScope where
  repository := {
    models := [
      { name := "orders"
        source := .table "orders"
        dimensions := [{ name := "id", primaryKey := true }, { name := "status" }]
        metrics := [⟨"count", none, fun _ => [.sql "count(", .column "id", .sql ")"]⟩] },
      { name := "shop"
        source := .table "shop"
        dimensions := [{ name := "id", primaryKey := true }, { name := "name" }] }]
    joins := [
      { origin := "orders"
        target := "shop"
        cardinality := .manyToOne
        condition := fun s => [s.originDimension "id", .sql " = ", s.targetDimension "id"] }] }
  dialect := .ansi
  context := .null
  now := ⟨⟨2024, 1, 1⟩, .midnight⟩

/-- A metric, a dimension behind an outer join and a dimension of the anchor. -/
private def threeConditions : Query where
  metrics := ["orders.count"]
  filter := some (.group .all [
    .leaf ⟨.greater, "orders.count", some (Json.ofNat 5)⟩,
    .leaf ⟨.set, "shop.name", none⟩,
    .leaf ⟨.set, "orders.status", none⟩])

/-- Three conditions, one for each level of the statement. -/
theorem statement_conditions_once_levels : ∃ st e, shopOrders.statement threeConditions = .ok st ∧
    st.filters.map (·.sql) = ["\"s0\".\"orders___count\" > ?"] ∧
    st.inputs.map (fun inner => inner.filters.map (·.sql)) =
      [["\"shop\".\"shop___name\" is not null"]] ∧
    st.inputs.flatMap (fun inner => inner.inputs.map fun m => m.filters.map (·.sql)) =
      [["\"orders\".\"status\" is not null"], []] ∧
    shopOrders.expand threeConditions = .ok e ∧
    shopOrders.HasConditions (shopOrders.predicatesOf threeConditions) (.root e.rootLayout)
      ((conjunctsOf threeConditions).filter shopOrders.readsMetric) st.filters ∧
    List.Forall₂ (fun s inner => inner.label = some s.label ∧
      shopOrders.Divides (shopOrders.predicatesOf threeConditions)
        ((conjunctsOf threeConditions).filter (!shopOrders.readsMetric ·)) inner)
      e.segments st.inputs := by
  have hrun : (shopOrders.statement threeConditions).toOption.map (fun st =>
      (st.filters.map (·.sql), st.inputs.map (fun inner => inner.filters.map (·.sql)),
        st.inputs.flatMap fun inner => inner.inputs.map fun m => m.filters.map (·.sql))) =
      some (["\"s0\".\"orders___count\" > ?"], [["\"shop\".\"shop___name\" is not null"]],
        [["\"orders\".\"status\" is not null"], []]) := by decide +kernel
  cases hst : shopOrders.statement threeConditions with
  | error err => rw [hst] at hrun; cases hrun
  | ok st =>
    rw [hst] at hrun
    obtain ⟨hroot, hsegment, hmodels⟩ : _ ∧ _ ∧ _ := by
      simpa only [Except.toOption, Option.map_some, Option.some.injEq, Prod.mk.injEq] using hrun
    obtain ⟨e, he, hconditions, hdivides⟩ := statement_conditions_once hst
    exact ⟨st, e, rfl, hroot, hsegment, hmodels, he, hconditions, hdivides⟩

end CompileScope

end MetricLayer
