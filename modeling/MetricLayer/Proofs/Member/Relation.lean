import MetricLayer.Proofs.Distinct
import MetricLayer.Proofs.Member.Session
import MetricLayer.Proofs.Sql.Statement

/-!
# Related evaluations

Two compile scopes over one repository are related when the templates of each definition differ, if
at all, only in their bound values. Their evaluations then find the same members, read the same
models and project the same columns, and the expressions are related. This is shown once for all
monads in which definitions are evaluated, over a `MonadRelation`.
-/

namespace MetricLayer

open Sql (Fragment Congruence)

/-! ## Templates and scopes -/

/-- Two parts of templates differ, if at all, in a bound value; literal text is related to
itself. -/
inductive TemplatePart.Related (R : Fragment → Fragment → Prop) :
    TemplatePart → TemplatePart → Prop
  | sql {text : String} (h : R (.ofText text) (.ofText text)) : Related R (.sql text) (.sql text)
  | value (v w : Json) : Related R (.value v) (.value w)
  | identifier (name : String) : Related R (.identifier name) (.identifier name)
  | column (name : String) : Related R (.column name) (.column name)
  | dimension (reference : String) : Related R (.dimension reference) (.dimension reference)
  | metric (reference : String) : Related R (.metric reference) (.metric reference)

/-- Two templates are related part by part. -/
abbrev Template.Related (R : Fragment → Fragment → Prop) (t t' : Template) : Prop :=
  List.Forall₂ (TemplatePart.Related R) t t'

/-- Two scopes over one repository in one dialect, under which all definitions are related. -/
structure CompileScope.Related (R : Fragment → Fragment → Prop) (scope scope' : CompileScope) :
    Prop where
  repository : scope'.repository = scope.repository
  dialect : scope'.dialect = scope.dialect
  dimension {m : Model} {d : Dimension} : m ∈ scope.repository.models → d ∈ m.dimensions →
    Template.Related R (d.template ⟨m.name, scope.context⟩) (d.template ⟨m.name, scope'.context⟩)
  metric {m : Model} {x : Metric} : m ∈ scope.repository.models → x ∈ m.metrics →
    Template.Related R (x.definition ⟨m.name, scope.context⟩)
      (x.definition ⟨m.name, scope'.context⟩)
  join {j : Join} : j ∈ scope.repository.joins →
    Template.Related R (j.template scope.context) (j.template scope'.context)
  subquery {m : Model} {text : String} : m ∈ scope.repository.models →
    m.source = .subquery text → R (.ofText text) (.ofText text)

/-! ## Evaluated definitions -/

/-- Two projections of the same column have related expressions. -/
structure Projection.Related (R : Fragment → Fragment → Prop) (p p' : Projection) : Prop where
  model : p.model = p'.model
  label : p.label = p'.label
  sql : R p.sql p'.sql

/-- Two evaluated definitions read the same models and the same columns, and their expressions are
related. -/
structure Compiled.Related (R : Fragment → Fragment → Prop) (c c' : Compiled) : Prop where
  sql : R c.sql c'.sql
  projections : List.Forall₂ (Projection.Related R) c.projections c'.projections
  models : c.models = c'.models

/-- Merged columns are related where the columns are. -/
theorem forall₂_mergeProjections {R : Fragment → Fragment → Prop} {ps qs ps' qs' : List Projection}
    (hp : List.Forall₂ (Projection.Related R) ps ps')
    (hq : List.Forall₂ (Projection.Related R) qs qs') :
    List.Forall₂ (Projection.Related R) (mergeProjections ps qs) (mergeProjections ps' qs') :=
  forall₂_addAllNewBy (fun _ _ h => Prod.ext h.model h.label) hp hq

/-- The first of several columns is related where the columns are. -/
theorem Sql.Congruence.coalesce {R : Fragment → Fragment → Prop} (hR : Congruence R)
    {fs fs' : List Fragment} (h : List.Forall₂ R fs fs') : R (coalesce fs) (coalesce fs') := by
  have hjoin := hR.wrap (hR.join (by decide : Sql.ScanNeutral ", ") h)
    (by decide : Sql.ScanNeutral "coalesce(") (by decide : Sql.ScanNeutral ")")
  cases h with
  | nil => exact hjoin
  | cons hf hrest =>
    cases hrest with
    | nil => exact hf
    | cons _ _ => exact hjoin

/-- A qualified name is related to itself. -/
theorem CompileScope.qualified_related {R : Fragment → Fragment → Prop} (hR : Congruence R)
    (scope : CompileScope) (source column : String) :
    R (scope.qualified source column) (scope.qualified source column) :=
  hR.column _ _ (Sql.scanNeutral_quotePath _ _)

namespace CompileScope.Related

variable {R : Fragment → Fragment → Prop} {scope scope' : CompileScope}
  (h : scope.Related R scope')

include h

/-- Related scopes write qualified names alike. -/
theorem qualified (source column : String) :
    scope'.qualified source column = scope.qualified source column := by
  rw [CompileScope.qualified, CompileScope.qualified, h.dialect]

/-- Related scopes quote identifiers alike. -/
theorem quote (identifier : String) : scope'.quote identifier = scope.quote identifier := by
  rw [CompileScope.quote, CompileScope.quote, h.dialect]

/-- Related scopes complete references alike. -/
theorem qualify (model reference : String) :
    scope'.qualify model reference = scope.qualify model reference := by
  rw [CompileScope.qualify, CompileScope.qualify, h.repository]

/-- Related scopes write related literal parts alike. -/
theorem literal (hR : Congruence R) {part part' : TemplatePart} (hp : part.Related R part') :
    R (scope.literal part) (scope'.literal part') := by
  cases hp with
  | sql ht => exact ht
  | value v w => exact hR.value v w
  | identifier name =>
    rw [CompileScope.literal, CompileScope.literal, h.quote]
    exact hR.text (Sql.scanNeutral_quote _ _)
  | column name | dimension name | metric name => exact hR.empty

end CompileScope.Related

/-! ## Resolvers -/

/-- Two resolvers find the same members and evaluate them to related definitions. -/
structure Resolver.Related {m n : Type → Type} [Monad m] [Monad n] [MonadExcept Error m]
    [MonadExcept Error n] (M : MonadRelation m n) (R : Fragment → Fragment → Prop)
    (repository : Repository) (r : Resolver m) (r' : Resolver n) : Prop where
  find (path : String) :
    M.rel (fun a b => a = b ∧ repository.IsMember a) (r.find path) (r'.find path)
  evaluate {member : Member} : repository.IsMember member →
    M.rel (Compiled.Related R) (r.evaluate member) (r'.evaluate member)

namespace Resolver.Related

variable {m n : Type → Type} [Monad m] [Monad n] [MonadExcept Error m] [MonadExcept Error n]
  {M : MonadRelation m n} {R : Fragment → Fragment → Prop} (hR : Congruence R)
  {scope scope' : CompileScope} (hs : scope.Related R scope')
  {r : Resolver m} {r' : Resolver n} (hr : r.Related M R scope.repository r')

include hs hr

/-- Related scopes follow references to the same dimensions. -/
theorem dimensionReference (owner : Member) (reference : String) :
    M.rel (fun a b => a = b ∧ scope.repository.IsMember a)
      (r.dimensionReference scope owner reference)
      (r'.dimensionReference scope' owner reference) := by
  rw [Resolver.dimensionReference, Resolver.dimensionReference, hs.qualify]
  refine M.bind (hr.find _) ?_
  rintro found _ ⟨rfl, hfound⟩
  exact M.check (M.pure ⟨rfl, hfound⟩)

include hR

/-- Related templates are written alike at the model level. -/
theorem modelTemplate (owner : Member) {t t' : Template} (ht : Template.Related R t t') :
    M.rel R (r.modelTemplate scope owner t) (r'.modelTemplate scope' owner t') := by
  induction ht with
  | nil => exact M.pure hR.empty
  | cons hpart hrest ih =>
    -- Whatever the first part amounts to, the rest follows it on both sides.
    have happend (f f' : Fragment) (hf : R f f') := M.bind ih fun g g' hg =>
      M.pure (hR.append hf hg)
    cases hpart with
    | column name =>
      rw [Resolver.modelTemplate, Resolver.modelTemplate, hs.qualified]
      exact M.bind (M.pure (scope.qualified_related hR _ _)) happend
    | dimension reference =>
      rw [Resolver.modelTemplate, Resolver.modelTemplate, hs.qualify]
      refine M.bind (dimensionReference hs hr owner reference) ?_
      rintro found _ ⟨rfl, hfound⟩
      refine M.check (M.bind (hr.evaluate hfound) fun c c' hc => ?_)
      exact M.bind (M.pure hc.sql) happend
    | metric reference =>
      rw [Resolver.modelTemplate, Resolver.modelTemplate]
      exact M.bind (M.throw _) happend
    | sql htext =>
      rw [Resolver.modelTemplate, Resolver.modelTemplate] <;> try simp
      exact M.bind (M.pure (hs.literal hR (.sql htext))) happend
    | value v w =>
      rw [Resolver.modelTemplate, Resolver.modelTemplate] <;> try simp
      exact M.bind (M.pure (hs.literal hR (.value v w))) happend
    | identifier name =>
      rw [Resolver.modelTemplate, Resolver.modelTemplate] <;> try simp
      exact M.bind (M.pure (hs.literal hR (.identifier name))) happend

/-- Related parts are written alike at the segment level. -/
theorem segmentPart (owner : Member) {part part' : TemplatePart} (hp : part.Related R part') :
    M.rel (Compiled.Related R) (r.segmentPart scope owner part)
      (r'.segmentPart scope' owner part') := by
  have hliteral := hs.literal hR hp
  cases hp with
  | column name =>
    rw [Resolver.segmentPart, Resolver.segmentPart, hs.qualified, hs.qualified]
    refine M.pure ⟨scope.qualified_related hR _ _, .cons ⟨rfl, rfl, ?_⟩ .nil, rfl⟩
    exact scope.qualified_related hR _ _
  | dimension reference =>
    refine M.bind (dimensionReference hs hr owner reference) ?_
    rintro found _ ⟨rfl, hfound⟩
    refine M.bind (hr.evaluate hfound) fun c c' hc => M.pure ⟨?_, hc.projections, hc.models⟩
    rw [hs.qualified]
    exact scope.qualified_related hR _ _
  | metric reference =>
    rw [Resolver.segmentPart, Resolver.segmentPart, hs.qualify]
    refine M.bind (hr.find _) ?_
    rintro found _ ⟨rfl, hfound⟩
    refine M.check (M.bind (hr.evaluate hfound) fun c c' hc => M.pure ?_)
    exact ⟨hR.parenthesize hc.sql, hc.projections, hc.models⟩
  | sql _ | value _ _ | identifier _ => exact M.pure ⟨hliteral, .nil, rfl⟩

/-- Related templates are written alike at the segment level. -/
theorem segmentTemplate (owner : Member) {t t' : Template} (ht : Template.Related R t t')
    {found found' : Compiled} (hfound : found.Related R found') :
    M.rel (Compiled.Related R) (r.segmentTemplate scope owner found t)
      (r'.segmentTemplate scope' owner found' t') := by
  -- What has been found so far is carried along, so the relation is generalized over it.
  induction ht generalizing found found' with
  | nil => exact M.pure hfound
  | cons hpart _ ih =>
    refine M.bind (segmentPart hR hs hr owner hpart) fun next next' hnext => ih ⟨?_, ?_, ?_⟩
    · exact hR.append hfound.sql hnext.sql
    · exact forall₂_mergeProjections hfound.projections hnext.projections
    · rw [hfound.models, hnext.models]

omit hR hs hr in
/-- A member projects related SQL under its own label. -/
private theorem ownProjection_related (member : Member) {f f' : Fragment} (hf : R f f') :
    (Resolver.ownProjection member f).Related R (Resolver.ownProjection member f') :=
  ⟨hf, .cons ⟨rfl, rfl, hf⟩ .nil, rfl⟩

/-- The definition of a member evaluates to related results. -/
theorem compile {member : Member} (hm : scope.repository.IsMember member) :
    M.rel (Compiled.Related R) (r.compile scope member) (r'.compile scope' member) := by
  have hdeclared := Repository.declares_of_member hm.member_path
  cases member with
  | dimension model d =>
    refine M.bind (modelTemplate hR hs hr _ (hs.dimension hdeclared.1 hdeclared.2))
      fun f f' hf => ?_
    exact M.pure (ownProjection_related _ hf)
  | granularity model d g =>
    -- A granularity is taken of the evaluated dimension, so the relation passes through the
    -- wrapper.
    refine M.bind (hr.find _) ?_
    rintro parent _ ⟨rfl, hparent⟩
    refine M.bind (hr.evaluate hparent) fun c c' hc => ?_
    rw [hs.dialect]
    exact M.pure (ownProjection_related _ (hR.granularity _ g hc.sql))
  | metric model x =>
    exact segmentTemplate hR hs hr _ (hs.metric hdeclared.1 hdeclared.2) ⟨hR.empty, .nil, rfl⟩
  | aggregate model d a =>
    refine M.bind (hr.find _) ?_
    rintro target _ ⟨rfl, htarget⟩
    refine M.bind (hr.evaluate htarget) fun c c' hc => M.pure ⟨?_, hc.projections, hc.models⟩
    rw [hs.qualified]
    exact hR.wrap (scope.qualified_related hR _ _) (by cases a <;> decide) (by decide)

/-! ## Levels -/

/-- Members are written alike at the segment level. -/
theorem segmentSql {member : Member} (hm : scope.repository.IsMember member) :
    M.rel R (r.segmentSql scope member) (r'.segmentSql scope' member) := by
  rw [Resolver.segmentSql, Resolver.segmentSql, hs.qualified]
  split_ifs
  · exact M.bind (hr.evaluate hm) fun c c' hc => M.pure hc.sql
  · exact M.pure (scope.qualified_related hR _ _)

/-- Members are selected alike at the segment level. -/
theorem segmentItem {member : Member} (hm : scope.repository.IsMember member) :
    M.rel (Sql.SelectItem.Related R) (r.segmentItem scope member) (r'.segmentItem scope' member) :=
  M.bind (segmentSql hR hs hr hm) fun _ _ hf => M.pure ⟨hf, rfl⟩

/-- Members are grouped alike at the segment level. -/
theorem segmentGroup {member : Member} (hm : scope.repository.IsMember member) :
    M.rel (Option.Rel R) (r.segmentGroup scope member) (r'.segmentGroup scope' member) := by
  rw [Resolver.segmentGroup, Resolver.segmentGroup]
  split_ifs
  · exact M.pure .none
  · exact M.bind (segmentSql hR hs hr hm) fun _ _ hf => M.pure (.some hf)

omit hr in
/-- Members are written alike at the root. -/
theorem rootSql (M : MonadRelation m n) (layout : RootLayout) (member : Member) :
    M.rel R (Resolver.rootSql scope layout member) (Resolver.rootSql scope' layout member) := by
  rw [Resolver.rootSql, Resolver.rootSql]
  simp only [hs.qualified]
  split_ifs
  · split
    · exact M.pure (scope.qualified_related hR _ _)
    · exact M.throw_bind
  · refine M.pure (hR.coalesce ?_)
    exact List.forall₂_map_left_iff.2 (List.forall₂_map_right_iff.2
      (List.forall₂_same.2 fun _ _ => scope.qualified_related hR _ _))

omit hr in
/-- Members are selected alike at the root. -/
theorem rootItem (M : MonadRelation m n) (layout : RootLayout) (member : Member) :
    M.rel (Sql.SelectItem.Related R) (Resolver.rootItem scope layout member)
      (Resolver.rootItem scope' layout member) :=
  M.bind (rootSql hR hs M layout member) fun _ _ hf => M.pure ⟨hf, rfl⟩

/-- Members are written alike in filters. -/
theorem filterSql (level : Level) {member : Member} (hm : scope.repository.IsMember member) :
    M.rel R (r.filterSql scope level member) (r'.filterSql scope' level member) := by
  cases level with
  | model =>
    rw [Resolver.filterSql, Resolver.filterSql]
    split_ifs
    · exact M.throw _
    · exact M.bind (hr.evaluate hm) fun c c' hc => M.pure hc.sql
  | segment => exact segmentSql hR hs hr hm
  | root layout => exact rootSql hR hs M layout member

/-! ## Join conditions -/

/-- Related parts of a join condition are written alike. -/
private theorem conditionPart (join : Join) {part part' : TemplatePart}
    (hp : part.Related R part') :
    M.rel (fun a b => R a.1 b.1 ∧ List.Forall₂ (Projection.Related R) a.2 b.2)
      (r.conditionPart scope join part) (r'.conditionPart scope' join part') := by
  have hliteral := hs.literal hR hp
  cases hp with
  | dimension path =>
    refine M.bind (hr.find _) ?_
    rintro found _ ⟨rfl, hfound⟩
    refine M.check (M.check (M.bind (hr.evaluate hfound) fun c c' hc => ?_))
    rw [hs.qualified]
    exact M.pure ⟨scope.qualified_related hR _ _, hc.projections⟩
  | column name | metric path => exact M.throw _
  | sql _ | value _ _ | identifier _ => exact M.pure ⟨hliteral, .nil⟩

/-- Related join conditions are written alike. -/
private theorem conditionParts (join : Join) {t t' : Template} (ht : Template.Related R t t')
    {found found' : Fragment × List Projection} (hf : R found.1 found'.1)
    (hp : List.Forall₂ (Projection.Related R) found.2 found'.2) :
    M.rel (fun a b => R a.1 b.1 ∧ List.Forall₂ (Projection.Related R) a.2 b.2)
      (r.conditionParts scope join found t) (r'.conditionParts scope' join found' t') := by
  induction ht generalizing found found' with
  | nil => exact M.pure ⟨hf, hp⟩
  | cons hpart _ ih =>
    exact M.bind (conditionPart hR hs hr join hpart) fun next next' hnext =>
      ih (hR.append hf hnext.1) (forall₂_mergeProjections hp hnext.2)

/-- The conditions of a declared join are related, and so are the columns that they read. -/
theorem joinCondition {join : Join} (hj : join ∈ scope.repository.joins) :
    M.rel (fun a b => R a.1 b.1 ∧ List.Forall₂ (Projection.Related R) a.2 b.2)
      (r.joinCondition scope join) (r'.joinCondition scope' join) :=
  conditionParts hR hs hr join (hs.join hj) hR.empty .nil

end Resolver.Related

/-! ## Whole evaluations -/

namespace CompileScope.Related

variable {R : Fragment → Fragment → Prop} (hR : Congruence R) {scope scope' : CompileScope}
  (hs : scope.Related R scope')

include hR hs

/-- Members are evaluated alike within any bound. -/
private theorem evaluateOn (bound : Nat) (trail : List String) {member : Member}
    (hm : scope.repository.IsMember member) :
    Agree (Compiled.Related R) (scope.evaluateOn bound trail member)
      (scope'.evaluateOn bound trail member) := by
  -- Induction on the bound: the references of a definition are evaluated with a bound one less.
  induction bound generalizing trail member with
  | zero => exact Agree.error_left
  | succ bound ih =>
    have hr : Resolver.Related resultRelation R scope.repository
        ⟨scope.repository.member, scope.evaluateOn bound (trail ++ [member.path])⟩
        ⟨scope'.repository.member, scope'.evaluateOn bound (trail ++ [member.path])⟩ := by
      refine ⟨fun path a b ha hb => ?_, ih _⟩
      rw [hs.repository] at hb
      exact ⟨Except.ok.inj (ha.symm.trans hb), path, ha⟩
    rw [CompileScope.evaluateOn, CompileScope.evaluateOn]
    split_ifs
    · exact Agree.error_left
    · exact hr.compile hR hs hm

/-- Members are evaluated to related definitions. -/
theorem evaluate {member : Member} (hm : scope.repository.IsMember member) :
    Agree (Compiled.Related R) (scope.evaluate member) (scope'.evaluate member) := by
  have hm' : scope'.repository.IsMember member := hs.repository ▸ hm
  rw [evaluate_eq_evaluateOn hm, evaluate_eq_evaluateOn hm', hs.repository]
  exact hs.evaluateOn hR _ [] hm

/-- The resolvers of related scopes are related. -/
theorem resolver :
    Resolver.Related resultRelation R scope.repository scope.resolver scope'.resolver where
  find path := by
    intro a b ha hb
    simp only [CompileScope.resolver, hs.repository] at ha hb
    exact ⟨Except.ok.inj (ha.symm.trans hb), path, ha⟩
  evaluate hm := hs.evaluate hR hm

end CompileScope.Related

end MetricLayer
