import MetricLayer.Compile.Basic
import MetricLayer.Proofs.Segment.Relation

/-!
# Related statements

Two alike queries, compiled in related scopes, become statements that render to related fragments.
The statements of models, of segments and the root are compared clause by clause, and nested
queries by induction on their depth.
-/

namespace MetricLayer

open Sql (Fragment Congruence Statement Source JoinClause OrderItem)

/-- The conditions that two segments have found so far stand in the same places and are related. -/
structure CompileScope.SegmentConditions.Related (R : Fragment → Fragment → Prop)
    (c c' : CompileScope.SegmentConditions) : Prop where
  projections : List.Forall₂ (Projection.Related R) c.projections c'.projections
  pushed : List.Forall₂ (fun x x' => x.1 = x'.1 ∧ R x.2 x'.2) c.pushed c'.pushed
  own : List.Forall₂ R c.own c'.own

/-- Lists that are related side by side are related as lists of pairs. -/
private theorem forall₂_zip {α β γ δ : Type} {P : α → β → Prop} {P' : γ → δ → Prop} {as : List α}
    {bs : List β} {cs : List γ} {ds : List δ} (h : List.Forall₂ P as bs)
    (h' : List.Forall₂ P' cs ds) :
    List.Forall₂ (fun x y => P x.1 y.1 ∧ P' x.2 y.2) (as.zip cs) (bs.zip ds) := by
  induction h generalizing cs ds with
  | nil => exact .nil
  | cons hab _ ih =>
    cases h' with
    | nil => exact .nil
    | cons hcd hrest => exact .cons ⟨hab, hcd⟩ (ih hrest)

/-- Related entries at one position. -/
private theorem rel_getElem? {α β : Type} {P : α → β → Prop} {as : List α} {bs : List β}
    (h : List.Forall₂ P as bs) (i : Nat) : Option.Rel P as[i]? bs[i]? := by
  induction h generalizing i with
  | nil => exact .none
  | cons hab _ ih =>
    cases i with
    | zero => exact .some hab
    | succ i => exact ih i

/-- A path finds a member. -/
private theorem Repository.agree_member (r : Repository) (path : String) :
    Agree (fun a b => a = b ∧ r.IsMember a) (r.member path) (r.member path) := by
  intro a b ha hb
  obtain rfl := Except.ok.inj (ha.symm.trans hb)
  exact ⟨rfl, path, ha⟩

namespace CompileScope.Related

variable {R : Fragment → Fragment → Prop} (hR : Congruence R) {scope scope' : CompileScope}
  (hs : scope.Related R scope')

include hR hs

/-! ## Models -/

/-- The columns of members are related. -/
private theorem projectionsOf {members : List Member}
    (hm : ∀ m ∈ members, scope.repository.IsMember m) :
    Agree (List.Forall₂ (Projection.Related R)) (scope.projectionsOf members)
      (scope'.projectionsOf members) := by
  refine (Agree.mapM_self (Q := List.Forall₂ (Projection.Related R)) fun m hmem =>
    (hs.evaluate hR (hm m hmem)).bind fun c c' hc => .pure hc.projections).bind fun ps ps' h => ?_
  exact .pure (List.rel_flatten h)

/-- A declared source is related to itself. -/
private theorem modelSource {model : Model} (hm : model ∈ scope.repository.models) :
    (CompileScope.modelSource model).Related R scope.dialect (CompileScope.modelSource model) := by
  rw [CompileScope.modelSource]
  cases hsource : model.source with
  | table name => exact hR.source_table _ _
  | subquery sql => exact hR.source_raw (hs.subquery hm hsource) _

/-- The statements of a model are related. -/
private theorem modelStatement {projections projections' : List Projection}
    (hp : List.Forall₂ (Projection.Related R) projections projections') (name : String)
    {conditions conditions' : List Fragment} (hc : List.Forall₂ R conditions conditions') :
    Agree (Statement.Related R scope.dialect) (scope.modelStatement projections name conditions)
      (scope'.modelStatement projections' name conditions') := by
  rw [CompileScope.modelStatement, CompileScope.modelStatement, hs.repository]
  cases hmodel : scope.repository.model? name with
  | none => exact .error_left
  | some model =>
    have hmem : model ∈ scope.repository.models := List.mem_of_find?_eq_some hmodel
    have hown : List.Forall₂ (Projection.Related R) (projections.filter (·.model = name))
        (projections'.filter (·.model = name)) :=
      List.rel_filter (fun p p' h => by simp [h.model]) hp
    have hstatement {ps ps' : List Projection}
        (hps : List.Forall₂ (Projection.Related R) ps ps') : Statement.Related R scope.dialect
          { label := some name, select := ps.map (·.selectItem)
            source := some (CompileScope.modelSource model), filters := conditions }
          { label := some name, select := ps'.map (·.selectItem)
            source := some (CompileScope.modelSource model), filters := conditions' } := by
      refine hR.statement rfl rfl ?_ (.some (hs.modelSource hR hmem)) .nil hc .nil .nil rfl rfl
      exact List.rel_map (fun p p' h => ⟨h.sql, congrArg some h.label⟩) hps
    -- A model from which nothing is read is represented by its primary key.
    dsimp only
    generalize projections.filter (·.model = name) = own at hown ⊢
    generalize projections'.filter (·.model = name) = own' at hown ⊢
    cases hown with
    | cons h hrest => exact .pure (hstatement (.cons h hrest))
    | nil =>
      rw [if_pos List.isEmpty_nil, if_pos List.isEmpty_nil]
      cases model.primaryKey? with
      | none => exact .error_left
      | some key =>
        refine (scope.repository.agree_member _).bind ?_
        rintro member _ ⟨rfl, hmember⟩
        have hall : ∀ m ∈ [member], scope.repository.IsMember m := by simpa using hmember
        exact (hs.projectionsOf hR hall).bind fun ps ps' hps => .pure (hstatement hps)

/-! ## Conditions -/

variable {Q : Query → Query → Prop} {p p' : PredicateScope}

/-- The conditions of related conjuncts are related. -/
private theorem condition (hp : p.Related R Q p') (level : Level) {c c' : Conjunct}
    (hc : c.Related Q scope.repository c') :
    Agree R (scope.condition p level c) (scope'.condition p' level c') := by
  rw [CompileScope.condition, CompileScope.condition, hs.repository]
  refine hp.predicate hR (fun path => ?_) hc.filter
  refine (scope.repository.agree_member path).bind ?_
  rintro member _ ⟨rfl, hmember⟩
  exact (hs.resolver hR).filterSql hR hs level hmember

/-- A placed filter adds related conditions to related ones. -/
private theorem addCondition (hp : p.Related R Q p') {conjuncts conjuncts' : List Conjunct}
    (hconj : List.Forall₂ (Conjunct.Related Q scope.repository) conjuncts conjuncts')
    {found found' : SegmentConditions} (hfound : found.Related R found') (placed : PlacedFilter) :
    Agree (SegmentConditions.Related R) (scope.addCondition p conjuncts found placed)
      (scope'.addCondition p' conjuncts' found' placed) := by
  rw [CompileScope.addCondition, CompileScope.addCondition]
  -- A placed filter points at a conjunct of both compiles, or of none.
  have hget := rel_getElem? hconj placed.conjunct
  cases hc : conjuncts[placed.conjunct]? <;> cases hc' : conjuncts'[placed.conjunct]? <;>
    rw [hc, hc'] at hget
  · exact .pure hfound
  · cases hget
  · cases hget
  · rename_i c c'
    obtain ⟨hc⟩ := hget
    cases placed.placement with
    | model name =>
      refine (hs.condition hR hp .model hc).bind fun f f' hf => .pure ⟨hfound.projections, ?_, ?_⟩
      · exact List.rel_append hfound.pushed (.cons ⟨rfl, hf⟩ .nil)
      · exact hfound.own
    | segment =>
      dsimp only
      rw [← hc.members]
      refine (hs.projectionsOf hR hc.named).bind fun ps ps' hps => ?_
      refine (hs.condition hR hp .segment hc).bind fun f f' hf => .pure ⟨?_, hfound.pushed, ?_⟩
      · exact forall₂_mergeProjections hfound.projections hps
      · exact List.rel_append hfound.own (.cons hf .nil)

/-! ## Segments -/

/-- The conditions of joins are related. -/
private theorem joinConditions (joins : List SegmentJoin) :
    Agree (List.Forall₂ fun a b => R a.1 b.1 ∧ List.Forall₂ (Projection.Related R) a.2 b.2)
      (joins.mapM fun j => do
        scope.resolver.joinCondition scope (← scope.repository.declared j.toOrientedJoin))
      (joins.mapM fun j => do
        scope'.resolver.joinCondition scope' (← scope.repository.declared j.toOrientedJoin)) := by
  refine Agree.mapM_self fun j _ => ?_
  have hdeclared : Agree (fun a b => a = b ∧ a ∈ scope.repository.joins)
      (scope.repository.declared j.toOrientedJoin)
      (scope.repository.declared j.toOrientedJoin) := by
    intro a b ha hb
    obtain rfl := Except.ok.inj (ha.symm.trans hb)
    exact ⟨rfl, List.mem_of_getElem? (Repository.join?_of_declared ha)⟩
  refine hdeclared.bind ?_
  rintro join _ ⟨rfl, hjoin⟩
  exact (hs.resolver hR).joinCondition hR hs hjoin

omit hR hs in
/-- The conditions that are pushed down to one model. -/
private theorem pushedConditions (name : String) {found found' : SegmentConditions}
    (h : found.Related R found') :
    List.Forall₂ R ((found.pushed.filter (·.1 = name)).map (·.2))
      ((found'.pushed.filter (·.1 = name)).map (·.2)) := by
  refine List.rel_map (fun x x' hx => hx.2) (List.rel_filter (fun x x' hx => ?_) h.pushed)
  simp [hx.1]

/-- The statements of a segment are related. -/
private theorem segmentStatement (hp : p.Related R Q p') {e e' : Expansion}
    (he : e.Related Q scope.repository e') {s : Segment} (hmem : s ∈ e.segments) :
    Agree (Statement.Related R scope.dialect) (scope.segmentStatement p e s)
      (scope'.segmentStatement p' e' s) := by
  rw [CompileScope.segmentStatement, CompileScope.segmentStatement, hs.repository,
    ← he.dimensions]
  dsimp only
  have hmembers : ∀ m ∈ e.dimensions ++ s.metrics, scope.repository.IsMember m := by
    intro m hm
    rcases List.mem_append.1 hm with hm | hm
    · exact he.named m hm
    · exact he.namedMetrics s hmem m hm
  refine (hs.projectionsOf hR hmembers).bind fun ps ps' hps => ?_
  -- The conditions are found one after the other, with the columns that they read.
  have hstart : SegmentConditions.Related R ⟨mergeProjections [] ps, [], []⟩
      ⟨mergeProjections [] ps', [], []⟩ := ⟨forall₂_mergeProjections .nil hps, .nil, .nil⟩
  refine (Agree.foldlM (P := Eq) ?_ (List.forall₂_refl s.filters) hstart).bind ?_
  · rintro found found' placed _ hfound rfl
    exact hs.addCondition hR hp he.conjuncts hfound placed
  intro found found' hfound
  refine (hs.joinConditions hR s.joins).bind fun cs cs' hcs => ?_
  have hprojections : List.Forall₂ (Projection.Related R)
      (mergeProjections found.projections (cs.flatMap (·.2)))
      (mergeProjections found'.projections (cs'.flatMap (·.2))) :=
    forall₂_mergeProjections hfound.projections (List.rel_flatMap hcs fun _ _ h => h.2)
  -- The statement of each model projects what the members, the conditions and the joins read from
  -- it.
  have hmodel (name : String) := hs.modelStatement hR hprojections name
    (pushedConditions name hfound)
  refine (hmodel s.anchor).bind fun anchor anchor' hanchor => ?_
  refine (Agree.mapM (Q := JoinClause.Related R scope.dialect) ?_
    (forall₂_zip (P := Eq) (List.forall₂_refl s.joins) hcs)).bind ?_
  · rintro ⟨j, c⟩ ⟨_, c'⟩ ⟨rfl, hc⟩
    exact (hmodel j.child).bind fun m m' hm =>
      .pure (hR.joinClause _ (hR.source_statement hm) (.some hc.1))
  intro joins joins' hjoins
  refine (Agree.mapM_self fun m hm => (hs.resolver hR).segmentItem hR hs (hmembers m hm)).bind
    fun select select' hselect => ?_
  refine (Agree.mapM_self fun m hm => (hs.resolver hR).segmentGroup hR hs (he.named m hm)).bind
    fun groups groups' hgroups => ?_
  refine .pure (hR.statement rfl rfl hselect (.some (hR.source_statement hanchor)) hjoins
    hfound.own ?_ .nil rfl rfl)
  exact List.rel_filterMap (fun _ _ h => h) hgroups

/-! ## The root -/

/-- The conditions on which a segment is merged are related. -/
private theorem mergeCondition (dimensions : List Member) (before : List String)
    (segment : String) : R (scope.mergeCondition dimensions before segment)
      (scope'.mergeCondition dimensions before segment) := by
  rw [CompileScope.mergeCondition, CompileScope.mergeCondition]
  simp only [hs.qualified]
  -- Only quoted names and literal text enter the condition, so both sides are the same text.
  have hself (names : List String) (column : String) : List.Forall₂ R
      (names.map fun s => scope.qualified s column) (names.map fun s => scope.qualified s column) :=
    List.forall₂_map_left_iff.2 (List.forall₂_map_right_iff.2
      (List.forall₂_same.2 fun _ _ => scope.qualified_related hR _ _))
  refine hR.join (by decide) (List.forall₂_map_left_iff.2 (List.forall₂_map_right_iff.2
    (List.forall₂_same.2 fun d _ => ?_)))
  exact hR.append (hR.append (hR.coalesce (hself before d.label)) (hR.text (by decide)))
    (scope.qualified_related hR _ _)

/-- The joins of the root are related. -/
private theorem rootJoins (dimensions : List Member) (before : List String)
    {named named' : List (String × Statement)}
    (h : List.Forall₂ (fun x y => x.1 = y.1 ∧ x.2.Related R scope.dialect y.2) named named') :
    List.Forall₂ (JoinClause.Related R scope.dialect) (scope.rootJoins dimensions before named)
      (scope'.rootJoins dimensions before named') := by
  induction h generalizing before with
  | nil => exact .nil
  | @cons x y _ _ hxy _ ih =>
    obtain ⟨name, s⟩ := x
    obtain ⟨_, s'⟩ := y
    obtain ⟨rfl, hstatement⟩ := hxy
    rw [CompileScope.rootJoins, CompileScope.rootJoins]
    refine .cons ?_ (ih _)
    split_ifs
    · exact hR.joinClause _ (hR.source_statement hstatement) .none
    · exact hR.joinClause _ (hR.source_statement hstatement)
        (.some (hs.mergeCondition hR dimensions before name))

/-- The orders of a related expansion are related. -/
private theorem orderItem {e e' : Expansion} (he : e.Related Q scope.repository e')
    (entry : OrderEntry) : Agree (OrderItem.Related R) (scope.orderItem e entry)
      (scope'.orderItem e' entry) := by
  rw [CompileScope.orderItem, CompileScope.orderItem, Expansion.requested?, Expansion.requested?,
    ← he.dimensions, ← he.metrics]
  split
  · rw [hs.quote]
    exact .ok ⟨hR.text (Sql.scanNeutral_quote _ _), rfl⟩
  · exact .error_left

/-- The statements of the root are related. -/
private theorem rootStatement (hp : p.Related R Q p') {e e' : Expansion}
    (he : e.Related Q scope.repository e') {ss ss' : List Statement}
    (hss : List.Forall₂ (Statement.Related R scope.dialect) ss ss') {q q' : Query}
    (hq : q.AlikeUpTo Q q') :
    Agree (Statement.Related R scope.dialect) (scope.rootStatement p e ss q)
      (scope'.rootStatement p' e' ss' q') := by
  -- The layout of the root is read off the segments, which are the same on both sides.
  have hlayout : e.rootLayout = e'.rootLayout := by
    rw [Expansion.rootLayout, Expansion.rootLayout, he.segments]
  rw [CompileScope.rootStatement, CompileScope.rootStatement, ← hlayout, ← he.dimensions,
    ← he.metrics, ← hq.order]
  dsimp only
  refine (Agree.mapM_self fun m _ => Resolver.Related.rootItem hR hs resultRelation
    e.rootLayout m).bind fun select select' hselect => ?_
  have hroot : List.Forall₂ (Conjunct.Related Q scope.repository)
      (e.conjuncts.filter (·.level = .root)) (e'.conjuncts.filter (·.level = .root)) :=
    List.rel_filter (fun c c' hc => by simp [hc.level]) he.conjuncts
  refine (Agree.mapM (fun c c' hc => hs.condition hR hp _ hc) hroot).bind
    fun filters filters' hfilters => ?_
  refine (Agree.mapM_self fun entry _ => hs.orderItem hR he entry).bind
    fun order order' horder => ?_
  have hnamed := forall₂_zip (P := Eq) (List.forall₂_refl e.rootLayout.segments) hss
  refine .pure (hR.statement rfl rfl hselect ?_
    (hs.rootJoins hR _ _ (List.forall₂_drop 1 hnamed)) hfilters .nil horder hq.limit hq.offset)
  cases hss with
  | nil => exact .none
  | cons hfirst _ => exact .some (hR.source_statement hfirst)

/-- Queries that are alike have related statements. -/
private theorem assemble {nested nested' : Query → Result Statement}
    (hnested : ∀ q q', Q q q' →
      Agree (Statement.Related R scope.dialect) (nested q) (nested' q')) {q q' : Query}
    (hq : q.AlikeUpTo Q q') :
    Agree (Statement.Related R scope.dialect) (scope.assemble nested q)
      (scope'.assemble nested' q') := by
  refine (hs.expand hR hq).bind fun e e' he => ?_
  have hp : PredicateScope.Related R Q ⟨scope.dialect, scope.now, nested⟩
      ⟨scope'.dialect, scope'.now, nested'⟩ := ⟨hs.dialect, hnested _ _⟩
  dsimp only
  rw [← he.segments]
  refine (Agree.mapM_self fun s hmem => hs.segmentStatement hR hp he hmem).bind
    fun ss ss' hss => ?_
  exact hs.rootStatement hR hp he hss hq

/-- Statements of related queries are related, whatever depths of nesting are allowed for. -/
private theorem statementWithin (hQ : Query.IsSimulation Q) (depth depth' : Nat) {q q' : Query}
    (hq : Q q q') :
    Agree (Statement.Related R scope.dialect) (scope.statementWithin depth q)
      (scope'.statementWithin depth' q') := by
  -- The depths allow for the nested queries of each side and need not be equal; where one side runs
  -- out it fails, and then nothing is to be shown.
  induction depth generalizing depth' q q' with
  | zero =>
    cases depth' with
    | zero => exact hs.assemble hR (fun _ _ _ => .error_left) (hQ q q' hq)
    | succ depth' => exact hs.assemble hR (fun _ _ _ => .error_left) (hQ q q' hq)
  | succ depth ih =>
    cases depth' with
    | zero => exact hs.assemble hR (fun _ _ _ => .error_right) (hQ q q' hq)
    | succ depth' => exact hs.assemble hR (fun _ _ h => ih depth' h) (hQ q q' hq)

/-- The statements of related queries, compiled in related scopes, are related. -/
theorem statement (hQ : Query.IsSimulation Q) {q q' : Query} (hq : Q q q') :
    Agree (Statement.Related R scope.dialect) (scope.statement q) (scope'.statement q') :=
  hs.statementWithin hR hQ _ _ hq

end CompileScope.Related

end MetricLayer
