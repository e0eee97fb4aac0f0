import MetricLayer.Proofs.Compile.Assembly
import MetricLayer.Proofs.Filter.Reference
import MetricLayer.Proofs.Member.Reference

/-!
# Columns of a segment

A segment reads columns for its dimensions, its metrics, the conditions in its own statement and its
joins. They are collected from these four places and divided among the statements of its models:

- `CompileScope.Gathered` — what the conditions taken so far have collected;
- `CompileScope.IsSegmentStatement.gathered` — all that is needed has been collected;
- `CompileScope.IsModelStatement.scopedTo` — the statement of a model reads its own source only;
- `CompileScope.IsModelStatement.mem_select` — it selects each column that is read from it.
-/

namespace MetricLayer

open Sql (Fragment Statement Source)

namespace Expansion

/-- The members that a segment reads for a conjunct at its place. -/
def membersAt (e : Expansion) (p : PlacedFilter) : List Member :=
  match p.placement with
  | .model _ => []
  | .segment => (e.conjuncts[p.conjunct]?.map (·.members)).getD []

/-- The members that a segment reads in its own statement: the requested dimensions, its metrics and
the members of the conditions that are evaluated there. -/
def membersOf (e : Expansion) (s : Segment) : List Member :=
  e.dimensions ++ s.metrics ++ s.filters.flatMap e.membersAt

end Expansion

namespace CompileScope

variable {scope : CompileScope} {predicates : PredicateScope}

/-! ## Conditions -/

/-- A column that the condition of a conjunct reads is one of a member of the conjunct. -/
theorem exists_member_of_condition {level : Level} {f : Filter} {c : Conjunct}
    (hc : scope.IsConjunct f c) {sql : Fragment} (h : scope.condition predicates level c = .ok sql)
    {reference : String × String} (hreference : reference ∈ sql.references) :
    ∃ m ∈ c.members, ∃ expr, scope.resolver.filterSql scope level m = .ok expr ∧
      reference ∈ expr.references := by
  obtain ⟨l, hl, expr, hexpr, hmem⟩ := PredicateScope.exists_leaf_of_predicate h hreference
  obtain ⟨m, hm, hexpr⟩ := exists_ok_of_bind hexpr
  have hpath : l.member ∈ f.members := by
    rw [← hc.filter]
    exact mem_distinct.2 (List.mem_map_of_mem hl)
  obtain ⟨m', hm', hfound⟩ := exists_mem_of_forall₂ hc.members.flip hpath
  obtain rfl := Except.ok.inj (hm.symm.trans hfound)
  exact ⟨m, hm', expr, hexpr, hmem⟩

/-- The models that are read for a member are those of its evaluation. -/
private theorem modelsRead_of_evaluate {m : Member} {c : Compiled}
    (h : scope.evaluate m = .ok c) : scope.modelsRead m = .ok c.models := by
  rw [modelsRead, h]
  rfl

/-- A condition that is pushed down to a model reads this model only. -/
private theorem readsOnly_of_pushed {f : Filter} {c : Conjunct} (hc : scope.IsConjunct f c)
    {reached : List String} {name : String}
    (hplacement : scope.placement reached c = .ok (.model name)) {sql : Fragment}
    (h : scope.condition predicates .model c = .ok sql) : sql.ReadsOnly name := by
  intro reference hreference
  obtain ⟨m, hm, expr, hexpr, hmem⟩ := exists_member_of_condition hc h hreference
  obtain ⟨-, read, hread, honly⟩ := of_placement_model hplacement
  unfold Resolver.filterSql at hexpr
  dsimp only at hexpr
  split_ifs at hexpr with hmetric
  obtain ⟨compiled, hcompiled, hexpr⟩ := exists_ok_of_bind hexpr
  obtain rfl := Except.ok.inj hexpr
  have hscoped := wellScoped_of_evaluate (hc.isMember hm) hcompiled
  -- The member reads its own model, and the conjunct reads no model but the given one.
  rw [(hscoped.dimension (by simpa using hmetric)).1 reference hmem]
  have hmodels := modelsRead_of_evaluate hcompiled
  exact (honly _).1 (mem_of_allModelsRead hread hm hmodels _ hscoped.model)

/-! ## Collecting -/

/-- Every member has a definition, and the columns that it projects are among the given ones. -/
private theorem mem_of_projectionsOf {members : List Member} {columns : List Projection}
    (h : scope.projectionsOf members = .ok columns) {m : Member} (hm : m ∈ members) :
    ∃ c, scope.evaluate m = .ok c ∧ ∀ p ∈ c.projections, p ∈ columns := by
  obtain ⟨lists, hlists, h⟩ := exists_ok_of_bind h
  obtain rfl := Except.ok.inj h
  obtain ⟨list, hlist, heq⟩ := exists_mem_of_forall₂ (Agree.forall₂_of_mapM hlists).flip hm
  obtain ⟨c, hc, heq⟩ := exists_ok_of_bind heq
  obtain rfl := Except.ok.inj heq
  exact ⟨c, hc, fun p hp => List.mem_flatten.2 ⟨_, hlist, hp⟩⟩

/-- A column of several members is one of their projections. -/
private theorem exists_of_mem_projectionsOf {members : List Member} {columns : List Projection}
    (h : scope.projectionsOf members = .ok columns) {p : Projection} (hp : p ∈ columns) :
    ∃ m ∈ members, ∃ c, scope.evaluate m = .ok c ∧ p ∈ c.projections := by
  obtain ⟨lists, hlists, h⟩ := exists_ok_of_bind h
  obtain rfl := Except.ok.inj h
  obtain ⟨list, hlist, hp⟩ := List.mem_flatten.1 hp
  obtain ⟨m, hm, heq⟩ := Agree.exists_of_mem_mapM hlists hlist
  obtain ⟨c, hc, heq⟩ := exists_ok_of_bind heq
  obtain rfl := Except.ok.inj heq
  exact ⟨m, hm, c, hc, hp⟩

/-- What has been collected for the given members: all their columns, each of one of the given
models and computed from its source. Conditions read only such columns, or the source of the model
that they are pushed down to. -/
structure Gathered (scope : CompileScope) (models : List String) (members : List Member)
    (found : SegmentConditions) : Prop where
  members : ∀ m ∈ members, ∃ c, scope.evaluate m = .ok c ∧
    ∀ p ∈ c.projections, p.key ∈ found.projections.map Projection.key
  projections : ∀ p ∈ found.projections, p.model ∈ models ∧ p.IsOwn
  pushed : ∀ x ∈ found.pushed, x.2.ReadsOnly x.1
  own : ∀ f ∈ found.own, ∀ reference ∈ f.references,
    reference ∈ found.projections.map Projection.key

section Segments

variable {query : Query} {e : Expansion} (he : scope.IsExpansion query e) {label : String}
  {group : SegmentGroup} {s : Segment}
  (hs : scope.IsSegment label group e.dimensions e.conjuncts s)

include hs

/-- The columns of a member that the segment reads are columns of its models. -/
private theorem model_mem_of_evaluate {m : Member} (hmember : scope.repository.IsMember m)
    (hm : m ∈ s.metrics ∨ m ∈ e.dimensions ∨ ∃ x ∈ innerConjuncts e.conjuncts, m ∈ x.1.members)
    {c : Compiled} (hc : scope.evaluate m = .ok c) {p : Projection} (hp : p ∈ c.projections) :
    p.model ∈ s.tree.models ∧ p.IsOwn := by
  obtain ⟨hmodel, hown⟩ := (wellScoped_of_evaluate hmember hc).projections p hp
  have hrequired := hs.mem_required hm (modelsRead_of_evaluate hc) _ hmodel
  exact ⟨hs.mem_models hrequired, hown⟩

include he

/-- One more conjunct: its columns are added where it is evaluated in the segment, and its condition
reads its own model where it is pushed down. -/
private theorem Gathered.addCondition {members : List Member} {found found' : SegmentConditions}
    (h : scope.Gathered s.tree.models members found) {placed : PlacedFilter}
    (hplaced : placed ∈ s.filters)
    (hadd : scope.addCondition predicates e.conjuncts found placed = .ok found') :
    scope.Gathered s.tree.models (members ++ e.membersAt placed) found' := by
  obtain ⟨x, hx, hc, hplacement⟩ := hs.exists_innerConjunct hplaced
  obtain ⟨f, hf⟩ := he.exists_isConjunct (List.mem_of_getElem? hc)
  unfold CompileScope.addCondition at hadd
  unfold Expansion.membersAt
  rw [hc] at hadd ⊢
  cases hplace : placed.placement with
  | model name =>
    simp only [hplace] at hadd
    rw [hplace] at hplacement
    obtain ⟨condition, hcondition, hadd⟩ := exists_ok_of_bind hadd
    obtain rfl := Except.ok.inj hadd
    refine ⟨by simpa using h.members, h.projections, fun y hy => ?_, h.own⟩
    rcases List.mem_append.1 hy with hy | hy
    · exact h.pushed y hy
    · obtain rfl := List.mem_singleton.1 hy
      exact readsOnly_of_pushed hf hplacement hcondition
  | segment =>
    simp only [hplace] at hadd
    obtain ⟨needed, hneeded, hadd⟩ := exists_ok_of_bind hadd
    obtain ⟨condition, hcondition, hadd⟩ := exists_ok_of_bind hadd
    obtain rfl := Except.ok.inj hadd
    have hnew {m : Member} (hm : m ∈ x.1.members) := mem_of_projectionsOf hneeded hm
    refine ⟨fun m hm => ?_, fun p hp => ?_, h.pushed, fun sql hsql reference hreference => ?_⟩
    · rcases List.mem_append.1 hm with hm | hm
      · obtain ⟨c, hc, hkeys⟩ := h.members m hm
        exact ⟨c, hc, fun p hp => mem_keys_mergeProjections (.inl (hkeys p hp))⟩
      · obtain ⟨c, hc, hmem⟩ := hnew hm
        exact ⟨c, hc, fun p hp =>
          mem_keys_mergeProjections (.inr (List.mem_map_of_mem (hmem p hp)))⟩
    · rcases mem_or_mem_of_mem_mergeProjections hp with hp | hp
      · exact h.projections p hp
      · obtain ⟨m, hm, c, hc, hp⟩ := exists_of_mem_projectionsOf hneeded hp
        exact model_mem_of_evaluate hs (hf.isMember hm) (.inr (.inr ⟨x, hx, hm⟩)) hc hp
    · rcases List.mem_append.1 hsql with hsql | hsql
      · exact mem_keys_mergeProjections (.inl (h.own sql hsql reference hreference))
      · -- The new condition reads columns of its members, all of which have just been added.
        obtain rfl := List.mem_singleton.1 hsql
        obtain ⟨m, hm, expr, hexpr, hmem⟩ := exists_member_of_condition hf hcondition hreference
        obtain ⟨c, hc, hadded⟩ := hnew hm
        obtain ⟨p, hp, hkey⟩ := List.mem_map.1
          (mem_keys_of_segmentSql (hf.isMember hm) hc hexpr reference hmem)
        rw [← hkey]
        exact mem_keys_mergeProjections (.inr (List.mem_map_of_mem (hadded p hp)))

/-- What is gathered is kept by any number of placed filters. -/
private theorem Gathered.foldlM {members : List Member} {found found' : SegmentConditions}
    {filters : List PlacedFilter} (hfilters : ∀ p ∈ filters, p ∈ s.filters)
    (h : scope.Gathered s.tree.models members found)
    (hrun : filters.foldlM (scope.addCondition predicates e.conjuncts) found = .ok found') :
    scope.Gathered s.tree.models (members ++ filters.flatMap e.membersAt) found' := by
  induction filters generalizing members found with
  | nil =>
    obtain rfl := Except.ok.inj hrun
    simpa using h
  | cons p rest ih =>
    rw [List.foldlM_cons] at hrun
    obtain ⟨next, hnext, hrun⟩ := exists_ok_of_bind hrun
    obtain ⟨hp, hrest⟩ := List.forall_mem_cons.1 hfilters
    simpa using ih hrest (h.addCondition he hs hp hnext) hrun

/-- The statement of a segment has collected the columns of all members that it reads. -/
theorem IsSegmentStatement.gathered {found : SegmentConditions}
    {conditions : List (Fragment × List Projection)} {st : Statement} (hmem : s ∈ e.segments)
    (h : scope.IsSegmentStatement predicates e s found conditions st) :
    scope.Gathered s.tree.models (e.membersOf s) found := by
  obtain ⟨read, hread, hrun⟩ := h.collected
  have hstart : scope.Gathered s.tree.models (e.dimensions ++ s.metrics)
      ⟨mergeProjections [] read, [], []⟩ := by
    refine ⟨fun m hm => ?_, fun p hp => ?_, nofun, nofun⟩
    · obtain ⟨c, hc, hcolumns⟩ := mem_of_projectionsOf hread hm
      exact ⟨c, hc, fun p hp =>
        mem_keys_mergeProjections (.inr (List.mem_map_of_mem (hcolumns p hp)))⟩
    · have hp := (mem_or_mem_of_mem_mergeProjections hp).resolve_left List.not_mem_nil
      obtain ⟨m, hm, c, hc, hp⟩ := exists_of_mem_projectionsOf hread hp
      rcases List.mem_append.1 hm with hm | hm
      · exact model_mem_of_evaluate hs (he.isMember_of_dimension hm) (.inr (.inl hm)) hc hp
      · exact model_mem_of_evaluate hs (he.isMember_of_metric hmem hm) (.inl hm) hc hp
  exact hstart.foldlM he hs (fun _ hp => hp) hrun

variable (hr : scope.repository.Valid)

include hr

omit he in
/-- A join condition reads columns of the two models that it joins. -/
theorem IsSegmentStatement.of_mem_conditions {found : SegmentConditions}
    {conditions : List (Fragment × List Projection)} {st : Statement}
    (h : scope.IsSegmentStatement predicates e s found conditions st)
    {c : Fragment × List Projection} (hc : c ∈ conditions) {p : Projection} (hp : p ∈ c.2) :
    p.model ∈ s.tree.models ∧ p.IsOwn := by
  obtain ⟨j, hj, declared, hdeclared, hcondition⟩ := exists_mem_of_forall₂ h.joined hc
  obtain ⟨hmodel, hown⟩ := (conditionScoped_of_joinCondition hcondition).projections p hp
  have hmem : j.toOrientedJoin ∈ s.joins.map (·.toOrientedJoin) := List.mem_map_of_mem hj
  have hchild : j.child ∈ s.anchor :: s.joins.map (·.child) :=
    List.mem_cons_of_mem _ (List.mem_map_of_mem hj)
  have hparent : j.parent ∈ s.anchor :: s.joins.map (·.child) := by
    simpa using hs.growFrom.parent_mem hmem
  -- The two models of the declared join are the parent and the child.
  have hends := hs.ends_of_mem_joins hj hdeclared
  rw [← (hs.perm_models hr).mem_iff]
  exact ⟨by grind, hown⟩

/-- The columns that a segment reads are columns of its models. -/
theorem IsSegmentStatement.of_mem_readColumns {found : SegmentConditions}
    {conditions : List (Fragment × List Projection)} {st : Statement} (hmem : s ∈ e.segments)
    (h : scope.IsSegmentStatement predicates e s found conditions st) {p : Projection}
    (hp : p ∈ readColumns found conditions) : p.model ∈ s.tree.models ∧ p.IsOwn := by
  rcases mem_or_mem_of_mem_mergeProjections hp with hp | hp
  · exact (h.gathered he hs hmem).projections p hp
  · obtain ⟨c, hc, hp⟩ := List.mem_flatMap.1 hp
    exact h.of_mem_conditions hs hr hc hp

end Segments

/-! ## Models -/

end CompileScope

/-- The statement of a model reads a single source under the name of the model, and every expression
reads this source only. -/
structure Sql.Statement.ScopedTo (st : Statement) (name : String) : Prop where
  label : st.label = some name
  source : ∃ source, st.sources = [source] ∧ source.label? = some name
  select : ∀ item ∈ st.select, item.expr.ReadsOnly name
  filters : ∀ f ∈ st.filters, f.ReadsOnly name
  inScope : st.Scoped

namespace CompileScope

variable {scope : CompileScope}

/-- The key column of a model is computed from the source of the model. -/
private theorem IsKeyColumn.model_eq {models : List Model} {joins : List Join}
    (hbuild : Repository.build models joins = .ok scope.repository) {name : String}
    {p : Projection} (h : scope.IsKeyColumn name p) : p.model = name ∧ p.IsOwn := by
  obtain ⟨model, key, m, columns, hmodel, hkey, hm, hcolumns, hp⟩ := h
  obtain ⟨d, hd⟩ := Repository.exists_dimension_of_key hbuild hmodel hkey
  obtain rfl := Except.ok.inj (hd.symm.trans hm)
  obtain ⟨m, hmem, c, hc, hp⟩ := exists_of_mem_projectionsOf hcolumns hp
  obtain rfl := List.mem_singleton.1 hmem
  have hscoped := wellScoped_of_evaluate ⟨_, hd⟩ hc
  refine ⟨?_, (hscoped.projections p hp).2⟩
  rw [(hscoped.dimension rfl).2.1 p hp]
  exact Repository.name_of_model? hmodel

namespace IsModelStatement

variable {columns : List Projection} {name : String} {conditions : List Fragment} {st : Statement}
  (h : scope.IsModelStatement columns name conditions st)

include h

/-- The statement of a model reads its own source only. -/
theorem scopedTo {models : List Model} {joins : List Join}
    (hbuild : Repository.build models joins = .ok scope.repository)
    (hcolumns : ∀ p ∈ columns, p.IsOwn) (hconditions : ∀ f ∈ conditions, f.ReadsOnly name) :
    st.ScopedTo name := by
  obtain ⟨model, hmodel, hsource⟩ := h.source
  have hsources : st.sources = [modelSource model] := by
    rw [Statement.sources, hsource, h.joins]
    rfl
  have hlabel : (modelSource model).label? = some name := by
    rw [← Repository.name_of_model? hmodel]
    unfold modelSource
    cases model.source <;> rfl
  have hselect : ∀ item ∈ st.select, item.expr.ReadsOnly name := by
    obtain ⟨projected, hprojected, -, hfrom⟩ := h.select
    rw [hprojected]
    intro item hitem
    obtain ⟨p, hp, rfl⟩ := List.mem_map.1 hitem
    -- A column is read from the model, or it is the key.
    rcases hfrom p hp with ⟨hmem, hname⟩ | hkey
    · exact hname ▸ hcolumns p hmem
    · obtain ⟨hname, hown⟩ := hkey.model_eq hbuild
      exact hname ▸ hown
  have hfilters : ∀ f ∈ st.filters, f.ReadsOnly name := by
    rw [h.filters]
    exact hconditions
  -- A table and a subquery have whatever column is read under their name.
  have hreads (f : Fragment) (hf : f.ReadsOnly name) : f.ReadsFrom st.sources := by
    intro reference hreference
    rw [hsources]
    refine ⟨modelSource model, List.mem_singleton_self _, ?_, ?_⟩
    · rw [hlabel, hf reference hreference]
    · unfold modelSource
      cases model.source <;> trivial
  refine ⟨h.label, ⟨_, hsources, hlabel⟩, hselect, hfilters, ⟨?_, ?_, ?_, ?_, ?_, ?_⟩⟩
  · rw [hsources]
    exact List.nodup_singleton _
  · rw [h.joins]
    trivial
  · exact fun item hitem => hreads _ (hselect item hitem)
  · exact fun f hf => hreads f (hfilters f hf)
  · rw [h.groupBy]
    exact fun _ hf => absurd hf List.not_mem_nil
  · rw [h.orderBy]
    exact fun _ ho => absurd ho List.not_mem_nil

/-- The statement of a model selects each column that is read from it. -/
theorem mem_select {reference : String × String} (hreference : reference ∈ columns.map Projection.key)
    (hname : reference.1 = name) : some reference.2 ∈ st.select.map (·.label) := by
  obtain ⟨p, hp, rfl⟩ := List.mem_map.1 hreference
  obtain ⟨projected, hprojected, hall, -⟩ := h.select
  rw [hprojected, List.map_map]
  exact List.mem_map.2 ⟨p, hall p hp hname, rfl⟩

end IsModelStatement

end CompileScope

end MetricLayer
