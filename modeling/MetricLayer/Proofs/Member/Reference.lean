import MetricLayer.Proofs.Distinct
import MetricLayer.Proofs.Member.Session
import MetricLayer.Proofs.Sql.Scope

/-!
# Columns that definitions read

At the model level a definition reads the source of its own model only; at the segment level it
reads only columns that it projects, and it projects columns of the models that it reads. This is
shown for each part of a definition and then for a whole evaluation.

- `Compiled.WellScoped` — what the evaluated definition of a member reads;
- `Resolver.WellScoped.compile` — one step of an evaluation;
- `CompileScope.wellScoped_of_evaluate` — a whole evaluation;
- `CompileScope.conditionScoped_of_joinCondition` — the condition of a join reads projected columns of
  its two models.
-/

namespace MetricLayer

open Sql (Fragment)

/-! ## Well scoped definitions -/

/-- An expression reads one source only. -/
def Sql.Fragment.ReadsOnly (f : Fragment) (source : String) : Prop :=
  ∀ reference ∈ f.references, reference.1 = source

/-- What two fragments read of one source only, both together do. -/
theorem Sql.Fragment.ReadsOnly.append {f g : Fragment} {source : String} (hf : f.ReadsOnly source)
    (hg : g.ReadsOnly source) : (f ++ g).ReadsOnly source := by
  intro reference hreference
  rw [Fragment.references_append, List.mem_append] at hreference
  exact hreference.elim (hf reference) (hg reference)

/-- The column of a projection is computed from the source of its model. -/
def Projection.IsOwn (p : Projection) : Prop := p.sql.ReadsOnly p.model

/-- What the evaluated definition of a member reads. -/
structure Compiled.WellScoped (member : Member) (c : Compiled) : Prop where
  model : member.model.name ∈ c.models
  projections : ∀ p ∈ c.projections, p.model ∈ c.models ∧ p.IsOwn
  /-- A dimension reads its own model, from which it projects one column. -/
  dimension : member.isMetric = false → c.sql.ReadsOnly member.model.name ∧
    (∀ p ∈ c.projections, p.model = member.model.name) ∧
    (member.model.name, member.label) ∈ c.projections.map Projection.key
  /-- A metric reads columns that it projects. -/
  metric : member.isMetric = true →
    ∀ reference ∈ c.sql.references, reference ∈ c.projections.map Projection.key

/-- Merged columns come from one of the two lists. -/
theorem mem_or_mem_of_mem_mergeProjections {ps qs : List Projection} {p : Projection}
    (h : p ∈ mergeProjections ps qs) : p ∈ ps ∨ p ∈ qs :=
  mem_or_mem_of_mem_addAllNewBy h

/-- Merging keeps every column, be it under another expression. -/
theorem mem_keys_mergeProjections {ps qs : List Projection} {key : String × String}
    (h : key ∈ ps.map Projection.key ∨ key ∈ qs.map Projection.key) :
    key ∈ (mergeProjections ps qs).map Projection.key := by
  rcases h with h | h
  · obtain ⟨p, hp, rfl⟩ := List.mem_map.1 h
    exact mem_keys_addAllNewBy (.inl hp)
  · obtain ⟨p, hp, rfl⟩ := List.mem_map.1 h
    exact mem_keys_addAllNewBy (.inr hp)

/-- A qualified name reads its own column. -/
@[simp]
theorem CompileScope.references_qualified (scope : CompileScope) (source column : String) :
    (scope.qualified source column).references = [(source, column)] := rfl

/-- Literal parts read no column. -/
@[simp]
theorem CompileScope.references_literal (scope : CompileScope) (part : TemplatePart) :
    (scope.literal part).references = [] := by
  cases part <;> simp [CompileScope.literal]

/-! ## Steps that may fail -/

/-- Where a step succeeds, its value is as stated. -/
def Ensures {α : Type} (P : α → Prop) (x : Result α) : Prop := ∀ a, x = .ok a → P a

namespace Ensures

variable {α β : Type} {P : α → Prop} {Q : β → Prop}

/-- A value ensures what holds of it. -/
theorem pure {a : α} (h : P a) : Ensures P (pure a) := by
  rintro _ ⟨⟩
  exact h

/-- What is ensured may be weakened. -/
theorem imp {P' : α → Prop} {x : Result α} (hx : Ensures P x) (himp : ∀ a, P a → P' a) :
    Ensures P' x :=
  fun a ha => himp a (hx a ha)

/-- A failure ensures anything. -/
theorem throw (e : Error) : Ensures P (throw e) := by
  rintro _ ⟨⟩

/-- What the first step ensures is there for the second one. -/
theorem bind {x : Result α} {f : α → Result β} (hx : Ensures P x)
    (hf : ∀ a, P a → Ensures Q (f a)) : Ensures Q (x >>= f) := by
  intro b hb
  obtain ⟨a, ha, hb⟩ := exists_ok_of_bind hb
  exact hf a (hx a ha) b hb

/-- A step that goes on only where a check passes. -/
theorem check {c : Prop} [Decidable c] {e : Error} {f : Unit → Result α}
    (h : ¬c → Ensures P (f ())) :
    Ensures P (if c then (MonadExcept.throw e : Result Unit) >>= f else f ()) := by
  intro a ha
  obtain ⟨hc, ha⟩ := not_and_ok_of_check ha
  exact h hc a ha

end Ensures

/-! ## One step of an evaluation -/

/-- A resolver finds members under their paths and evaluates them to well scoped definitions. -/
structure Resolver.WellScoped (repository : Repository) (r : Resolver Result) : Prop where
  find (path : String) : Ensures (fun m => repository.member path = .ok m) (r.find path)
  evaluate {member : Member} : repository.IsMember member →
    Ensures (Compiled.WellScoped member) (r.evaluate member)

namespace Resolver.WellScoped

variable {scope : CompileScope} {r : Resolver Result} (hr : r.WellScoped scope.repository)

include hr

/-- A reference leads to a dimension. -/
private theorem dimensionReference (owner : Member) (reference : String) :
    Ensures (fun m => scope.repository.IsMember m ∧ m.isMetric = false)
      (r.dimensionReference scope owner reference) := by
  refine (hr.find _).bind fun found hfound => Ensures.check fun hmetric => ?_
  exact .pure ⟨⟨_, hfound⟩, by simpa using hmetric⟩

/-- The definition of a dimension reads its own model only. -/
theorem modelTemplate (owner : Member) (t : Template) :
    Ensures (fun f => f.ReadsOnly owner.model.name) (r.modelTemplate scope owner t) := by
  induction t with
  | nil =>
    rw [Resolver.modelTemplate]
    exact .pure (by simp [Fragment.ReadsOnly])
  | cons part rest ih =>
    -- Whatever a part becomes, the rest of the definition follows behind it.
    have happend (f : Fragment) (hf : f.ReadsOnly owner.model.name) :=
      ih.bind (Q := (Fragment.ReadsOnly · owner.model.name)) fun g hg => .pure (hf.append hg)
    have hliteral : (scope.literal part).ReadsOnly owner.model.name := by
      simp [Fragment.ReadsOnly]
    cases part with
    | column name =>
      rw [Resolver.modelTemplate]
      exact (Ensures.pure (by simp [Fragment.ReadsOnly])).bind happend
    | dimension reference =>
      rw [Resolver.modelTemplate]
      refine (hr.dimensionReference owner reference).bind fun found hfound =>
        Ensures.check fun hmodel => ?_
      obtain ⟨hmember, hdimension⟩ := hfound
      refine (hr.evaluate hmember).bind fun c hc => (Ensures.pure ?_).bind happend
      rw [← not_not.1 hmodel]
      exact (hc.dimension hdimension).1
    | metric reference =>
      rw [Resolver.modelTemplate]
      exact (Ensures.throw _).bind happend
    | sql text | value v | identifier name => exact happend _ hliteral

/-- What a part of the definition of a metric reads and projects. -/
private structure PartScoped (owner : Member) (c : Compiled) : Prop where
  projections : ∀ p ∈ c.projections, (p.model = owner.model.name ∨ p.model ∈ c.models) ∧ p.IsOwn
  columns : ∀ reference ∈ c.sql.references, reference ∈ c.projections.map Projection.key

/-- A part at the segment level reads what it projects. -/
private theorem segmentPart (owner : Member) (part : TemplatePart) :
    Ensures (PartScoped owner) (r.segmentPart scope owner part) := by
  cases part with
  | column name =>
    refine .pure ⟨?_, ?_⟩
    · simp [Projection.IsOwn, Fragment.ReadsOnly]
    · simp [Projection.key]
  | dimension reference =>
    refine (hr.dimensionReference owner reference).bind fun found hfound => ?_
    obtain ⟨hmember, hdimension⟩ := hfound
    refine (hr.evaluate hmember).bind fun c hc => .pure ⟨fun p hp => ?_, ?_⟩
    · exact ⟨.inr (hc.projections p hp).1, (hc.projections p hp).2⟩
    · simpa using (hc.dimension hdimension).2.2
  | metric reference =>
    refine (hr.find _).bind fun found hfound => Ensures.check fun hmetric => ?_
    refine (hr.evaluate ⟨_, hfound⟩).bind fun c hc => .pure ⟨fun p hp => ?_, ?_⟩
    · exact ⟨.inr (hc.projections p hp).1, (hc.projections p hp).2⟩
    · simpa using hc.metric (by simpa using hmetric)
  | sql text | value v | identifier name =>
    exact .pure ⟨nofun, by simp⟩

/-- The definition of a metric reads columns that it projects, all of them from models that it
reads. -/
private structure TemplateScoped (owner : Member) (c : Compiled) : Prop where
  model : owner.model.name ∈ c.models
  projections : ∀ p ∈ c.projections, p.model ∈ c.models ∧ p.IsOwn
  columns : ∀ reference ∈ c.sql.references, reference ∈ c.projections.map Projection.key

/-- A template at the segment level reads what it projects. -/
private theorem segmentTemplate (owner : Member) (t : Template) {found : Compiled}
    (hfound : TemplateScoped owner found) :
    Ensures (TemplateScoped owner) (r.segmentTemplate scope owner found t) := by
  induction t generalizing found with
  | nil => exact .pure hfound
  | cons part rest ih =>
    refine (hr.segmentPart owner part).bind fun next hnext => ih ⟨?_, fun p hp => ?_, ?_⟩
    · exact mem_addAllNew.2 (.inl hfound.model)
    · -- A projected column comes from an earlier part or from this one.
      rcases mem_or_mem_of_mem_mergeProjections hp with hp | hp
      · obtain ⟨hread, hown⟩ := hfound.projections p hp
        exact ⟨mem_addAllNew.2 (.inl hread), hown⟩
      · obtain ⟨hmodel | hread, hown⟩ := hnext.projections p hp
        · exact ⟨mem_addAllNew.2 (.inl (hmodel ▸ hfound.model)), hown⟩
        · exact ⟨mem_addAllNew.2 (.inr hread), hown⟩
    · intro reference hreference
      rw [Fragment.references_append, List.mem_append] at hreference
      exact mem_keys_mergeProjections (hreference.imp (hfound.columns _) (hnext.columns _))

omit hr in
/-- A dimension over its own model projects a column of its own. -/
private theorem ownProjection {member : Member} (hdimension : member.isMetric = false)
    {f : Fragment} (hf : f.ReadsOnly member.model.name) :
    (Resolver.ownProjection member f).WellScoped member := by
  refine ⟨?_, ?_, fun _ => ⟨hf, ?_, ?_⟩, fun hmetric => ?_⟩
  · simp [Resolver.ownProjection]
  · intro p hp
    obtain rfl := List.mem_singleton.1 hp
    exact ⟨List.mem_singleton_self _, hf⟩
  · simp [Resolver.ownProjection]
  · simp [Resolver.ownProjection, Projection.key]
  · rw [hdimension] at hmetric
    cases hmetric

/-- The definition of a member evaluates to a well scoped one. -/
theorem compile {member : Member} (hm : scope.repository.IsMember member) :
    Ensures (Compiled.WellScoped member) (r.compile scope member) := by
  cases member with
  | dimension model d =>
    exact (hr.modelTemplate _ _).bind fun f hf => .pure (ownProjection rfl hf)
  | granularity model d g =>
    -- The dimension is named by the path without the granularity.
    have hparent := hm.member_dimension (.inl ⟨g, rfl⟩)
    refine (hr.find _).bind fun parent hfound => ?_
    obtain rfl := Except.ok.inj (hparent.symm.trans hfound)
    refine (hr.evaluate ⟨_, hparent⟩).bind fun c hc => .pure (ownProjection rfl ?_)
    rw [Fragment.ReadsOnly, Sql.references_granularity]
    exact (hc.dimension rfl).1
  | metric model x =>
    have hstart : TemplateScoped (.metric model x) ⟨.empty, [], [model.name]⟩ :=
      ⟨List.mem_cons_self, by simp, by simp⟩
    refine (hr.segmentTemplate _ _ hstart).imp fun c hc => ?_
    exact ⟨hc.model, hc.projections, nofun, fun _ => hc.columns⟩
  | aggregate model d a =>
    -- The dimension is named by the path without the aggregate.
    have htarget := hm.member_dimension (.inr ⟨a, rfl⟩)
    refine (hr.find _).bind fun target hfound => ?_
    obtain rfl := Except.ok.inj (htarget.symm.trans hfound)
    refine (hr.evaluate ⟨_, htarget⟩).bind fun c hc =>
      .pure ⟨hc.model, hc.projections, nofun, fun _ => ?_⟩
    simpa using (hc.dimension rfl).2.2

end Resolver.WellScoped

/-! ## A whole evaluation -/

namespace CompileScope

variable {scope : CompileScope}

/-- Members are evaluated to SQL that reads what it projects. -/
private theorem ensures_evaluateOn (scope : CompileScope) (bound : Nat) (trail : List String)
    {member : Member} (hm : scope.repository.IsMember member) :
    Ensures (Compiled.WellScoped member) (scope.evaluateOn bound trail member) := by
  -- Induction on the bound: the references of a definition are evaluated with a bound one less.
  induction bound generalizing trail member with
  | zero => exact Ensures.throw _
  | succ bound ih =>
    have hr : Resolver.WellScoped scope.repository
        ⟨scope.repository.member, scope.evaluateOn bound (trail ++ [member.path])⟩ :=
      ⟨fun path found hfound => hfound, ih _⟩
    rw [evaluateOn]
    split_ifs
    · exact Ensures.throw _
    · exact hr.compile hm

/-- The evaluated definition of a member is well scoped. -/
theorem wellScoped_of_evaluate {member : Member} (hm : scope.repository.IsMember member)
    {c : Compiled} (h : scope.evaluate member = .ok c) : c.WellScoped member := by
  rw [evaluate_eq_evaluateOn hm] at h
  exact scope.ensures_evaluateOn _ [] hm c h

/-- A member at the segment level reads columns that its definition projects. -/
theorem mem_keys_of_segmentSql {member : Member} (hm : scope.repository.IsMember member)
    {c : Compiled} (hc : scope.evaluate member = .ok c) {f : Fragment}
    (h : scope.resolver.segmentSql scope member = .ok f) :
    ∀ reference ∈ f.references, reference ∈ c.projections.map Projection.key := by
  have hscoped := wellScoped_of_evaluate hm hc
  unfold Resolver.segmentSql at h
  split_ifs at h with hmetric
  · obtain ⟨c', hc', h⟩ := exists_ok_of_bind h
    obtain rfl := Except.ok.inj (hc.symm.trans hc')
    obtain rfl := Except.ok.inj h
    exact hscoped.metric hmetric
  · obtain rfl := Except.ok.inj h
    simpa using (hscoped.dimension (by simpa using hmetric)).2.2

/-! ## Join conditions -/

/-- A join condition reads columns that it projects, all of them from the two models of the join. -/
structure ConditionScoped (join : Join) (c : Fragment × List Projection) : Prop where
  projections : ∀ p ∈ c.2, (p.model = join.origin ∨ p.model = join.target) ∧ p.IsOwn
  columns : ∀ reference ∈ c.1.references, reference ∈ c.2.map Projection.key

/-- A part of a join condition reads one of the two models. -/
private theorem conditionScoped_of_conditionPart {join : Join} {part : TemplatePart}
    {c : Fragment × List Projection} (h : scope.resolver.conditionPart scope join part = .ok c) :
    ConditionScoped join c := by
  cases part with
  | dimension path =>
    obtain ⟨found, hfound, h⟩ := exists_ok_of_bind h
    obtain ⟨hmetric, h⟩ := not_and_ok_of_check h
    obtain ⟨houtside, h⟩ := not_and_ok_of_check h
    obtain ⟨compiled, hcompiled, h⟩ := exists_ok_of_bind h
    obtain rfl := Except.ok.inj h
    have hscoped := wellScoped_of_evaluate ⟨path, hfound⟩ hcompiled
    obtain ⟨-, hmodel, hkey⟩ := hscoped.dimension (by simpa using hmetric)
    refine ⟨fun p hp => ⟨?_, (hscoped.projections p hp).2⟩, by simpa using hkey⟩
    rw [hmodel p hp]
    tauto
  | column name | metric path => cases h
  | sql text | value v | identifier name =>
    obtain rfl := Except.ok.inj h
    exact ⟨nofun, by simp⟩

/-- A join condition reads its two models. -/
private theorem conditionScoped_of_conditionParts {join : Join} {t : Template}
    {found c : Fragment × List Projection} (hfound : ConditionScoped join found)
    (h : scope.resolver.conditionParts scope join found t = .ok c) : ConditionScoped join c := by
  -- By induction on the parts that are left, with the columns that the parts before them read.
  induction t generalizing found with
  | nil =>
    obtain rfl := Except.ok.inj h
    exact hfound
  | cons part rest ih =>
    obtain ⟨next, hnext, h⟩ := exists_ok_of_bind h
    have hpart := conditionScoped_of_conditionPart hnext
    refine ih ⟨fun p hp => ?_, fun reference hreference => ?_⟩ h
    · exact (mem_or_mem_of_mem_mergeProjections hp).elim (hfound.projections p)
        (hpart.projections p)
    · rw [Fragment.references_append, List.mem_append] at hreference
      exact mem_keys_mergeProjections (hreference.imp (hfound.columns _) (hpart.columns _))

/-- The condition of a join reads columns that it projects from the two models of the join. -/
theorem conditionScoped_of_joinCondition {join : Join} {c : Fragment × List Projection}
    (h : scope.resolver.joinCondition scope join = .ok c) : ConditionScoped join c :=
  conditionScoped_of_conditionParts ⟨by simp, by simp⟩ h

end CompileScope

end MetricLayer
