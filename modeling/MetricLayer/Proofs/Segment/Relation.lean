import MetricLayer.Proofs.Filter.Relation
import MetricLayer.Proofs.Member.Relation
import MetricLayer.Proofs.Segment.Group

/-!
# Related expansions

Two alike queries over related scopes are taken apart in the same way: the same members, the same
segments with the same join trees, and conjuncts that are alike and evaluated in the same places.
-/

namespace MetricLayer

open Sql (Fragment Congruence)

/-- Two conjuncts with alike filters over the same members. -/
structure Conjunct.Related (Q : Query → Query → Prop) (r : Repository) (c c' : Conjunct) :
    Prop where
  filter : c.filter.Alike Q c'.filter
  members : c.members = c'.members
  level : c.level = c'.level
  named : ∀ m ∈ c.members, r.IsMember m

private theorem Conjunct.forall_named {Q : Query → Query → Prop} {r : Repository}
    {cs cs' : List Conjunct} (h : List.Forall₂ (Conjunct.Related Q r) cs cs') :
    ∀ c ∈ cs, ∀ m ∈ c.members, r.IsMember m := by
  have hnamed : List.Forall₂ (fun c c' => (∀ m ∈ c.members, r.IsMember m) ∧
      Conjunct.Related Q r c c') cs cs' := h.imp fun c c' hc => ⟨hc.named, hc⟩
  exact ((List.forall₂_and_left _ _).1 hnamed).1

/-- Two expansions that differ in the payloads of their conjuncts only. -/
structure Expansion.Related (Q : Query → Query → Prop) (r : Repository) (e e' : Expansion) :
    Prop where
  dimensions : e.dimensions = e'.dimensions
  metrics : e.metrics = e'.metrics
  segments : e.segments = e'.segments
  conjuncts : List.Forall₂ (Conjunct.Related Q r) e.conjuncts e'.conjuncts
  named : ∀ m ∈ e.dimensions, r.IsMember m
  namedMetrics : ∀ s ∈ e.segments, ∀ m ∈ s.metrics, r.IsMember m

/-- Related entries that contribute the same contribute the same in sum. -/
private theorem flatMap_eq_of_forall₂ {α β γ : Type} {P : α → β → Prop} {f : α → List γ}
    {g : β → List γ} {as : List α} {bs : List β} (h : List.Forall₂ P as bs)
    (hfg : ∀ a b, P a b → f a = g b) : as.flatMap f = bs.flatMap g := by
  induction h with
  | nil => rfl
  | cons hab _ ih => rw [List.flatMap_cons, List.flatMap_cons, hfg _ _ hab, ih]

/-- The declaration of an oriented join is that at its position. -/
theorem Repository.join?_of_declared {r : Repository} {j : OrientedJoin} {join : Join}
    (h : r.declared j = .ok join) : r.join? j.join = some join := by
  rw [declared] at h
  cases hjoin : r.join? j.join with
  | none => rw [hjoin] at h; cases h
  | some found =>
    rw [hjoin] at h
    exact congrArg some (Except.ok.inj h)

/-! ## Members -/

/-- Members that are found one after the other are members of the repository. -/
private theorem Repository.agree_found (r : Repository) {find : String → Result Member}
    (hfind : ∀ path m, find path = .ok m → r.member path = .ok m) (paths : List String) :
    Agree (fun a b => a = b ∧ ∀ m ∈ a, r.IsMember m) (paths.mapM find) (paths.mapM find) := by
  intro a b ha hb
  obtain rfl := Except.ok.inj (ha.symm.trans hb)
  refine ⟨rfl, fun m hm => ?_⟩
  obtain ⟨path, -, hpath⟩ := Agree.exists_of_mem_mapM ha hm
  exact ⟨path, hfind path m hpath⟩

theorem Repository.member_of_dimension {r : Repository} {path : String} {m : Member}
    (h : r.dimension path = .ok m) : r.member path = .ok m := by
  rw [Repository.dimension] at h
  cases hm : r.member path with
  | error e => rw [hm] at h; cases h
  | ok found =>
    rw [hm] at h
    change (if found.isMetric then _ else _) = _ at h
    split_ifs at h
    · cases h
    · exact h

theorem Repository.member_of_metric {r : Repository} {path : String} {m : Member}
    (h : r.metric path = .ok m) : r.member path = .ok m := by
  rw [Repository.metric] at h
  cases hm : r.member path with
  | error e => rw [hm] at h; cases h
  | ok found =>
    rw [hm] at h
    change (if found.isMetric then _ else _) = _ at h
    split_ifs at h
    exact h

namespace CompileScope.Related

variable {R : Fragment → Fragment → Prop} (hR : Congruence R) {scope scope' : CompileScope}
  (hs : scope.Related R scope')

include hs

/-- The same requested members are found. -/
private theorem requested (kind : MemberKind) (paths : List String) :
    Agree (fun a b => a = b ∧ ∀ m ∈ a, scope.repository.IsMember m)
      (scope.requested kind paths) (scope'.requested kind paths) := by
  rw [CompileScope.requested, CompileScope.requested, hs.repository]
  refine (scope.repository.agree_found (fun path m h => ?_) paths).bind ?_
  · cases kind with
    | dimension => exact Repository.member_of_dimension h
    | metric => exact Repository.member_of_metric h
  · rintro members _ ⟨rfl, hmembers⟩
    refine .pure ⟨rfl, fun m hm => ?_⟩
    rcases mem_or_mem_of_mem_addAllNewBy hm with hnil | hmem
    · cases hnil
    · exact hmembers m hmem

/-- Alike conditions become related conjuncts. -/
private theorem conjunct {Q : Query → Query → Prop} (dimensions : List Member) {f f' : Filter}
    (hf : f.Alike Q f') :
    Agree (Conjunct.Related Q scope.repository) (scope.conjunct dimensions f)
      (scope'.conjunct dimensions f') := by
  rw [CompileScope.conjunct, CompileScope.conjunct, hs.repository, hf.members_eq]
  refine (scope.repository.agree_found (fun _ _ h => h) _).bind ?_
  rintro members _ ⟨rfl, hmembers⟩
  split_ifs
  · dsimp only
    split
    · exact .error_left
    · exact .pure ⟨hf, rfl, rfl, hmembers⟩
  · exact .pure ⟨hf, rfl, rfl, hmembers⟩

include hR

/-! ## Groups -/

/-- A member reads the same models in both scopes. -/
private theorem modelsRead {member : Member} (hm : scope.repository.IsMember member) :
    Agree Eq (scope.modelsRead member) (scope'.modelsRead member) :=
  (hs.evaluate hR hm).bind fun _ _ hc => .pure hc.models

private theorem allModelsRead {members : List Member}
    (hm : ∀ m ∈ members, scope.repository.IsMember m) :
    Agree Eq (scope.allModelsRead members) (scope'.allModelsRead members) := by
  refine (Agree.mapM_eq fun m hmem => hs.modelsRead hR (hm m hmem)).bind ?_
  rintro models _ rfl
  exact .pure rfl

/-- A metric is fanned out in one scope exactly when it is in the other. -/
private theorem fannedOut {metric : Member} (hm : scope.repository.IsMember metric) :
    Agree Eq (scope.fannedOut metric) (scope'.fannedOut metric) := by
  rw [CompileScope.fannedOut, CompileScope.fannedOut, hs.repository]
  refine (hs.modelsRead hR hm).bind ?_
  rintro models _ rfl
  exact .refl _

private theorem groups (dimensions : List Member) {metrics : List Member}
    (hm : ∀ m ∈ metrics, scope.repository.IsMember m) :
    Agree (fun gs gs' => gs = gs' ∧ ∀ g ∈ gs, ∀ m ∈ g.metrics, scope.repository.IsMember m)
      (scope.groups dimensions metrics) (scope'.groups dimensions metrics) := by
  have hfanned : Agree (List.Forall₂ fun x y => scope.repository.IsMember x.1 ∧ x = y)
      (metrics.mapM fun m => do return (m, ← scope.fannedOut m))
      (metrics.mapM fun m => do return (m, ← scope'.fannedOut m)) := by
    refine Agree.mapM_self fun m hmem => (hs.fannedOut hR (hm m hmem)).bind fun f f' hf => ?_
    exact .pure ⟨hm m hmem, congrArg (m, ·) hf⟩
  -- Both scopes find the same fans, so the groups are built from one list.
  refine hfanned.bind fun fanned fanned' h => ?_
  rw [List.forall₂_and_left, List.forall₂_eq_eq_eq] at h
  obtain ⟨hall, rfl⟩ := h
  dsimp only
  rw [foldl_addToGroup]
  have hgroups : ∀ g ∈ (distinct (fanned.map metricKey)).map (SegmentGroup.collect fanned),
      ∀ m ∈ g.metrics, scope.repository.IsMember m := by
    intro g hg m hmem
    obtain ⟨key, -, rfl⟩ := List.mem_map.1 hg
    obtain ⟨x, hx, -, rfl⟩ := SegmentGroup.mem_of_mem_collect hmem
    exact hall x hx
  -- Without any metric the only group has none, so nothing has to be a member.
  split
  · refine .pure ⟨rfl, fun g hg m hmem => ?_⟩
    obtain rfl := List.mem_singleton.1 hg
    cases hmem
  · exact .pure ⟨rfl, hgroups⟩

/-! ## Segments -/

private theorem placement {Q : Query → Query → Prop} (reached : List String) {c c' : Conjunct}
    (hc : c.Related Q scope.repository c') :
    Agree Eq (scope.placement reached c) (scope'.placement reached c') := by
  rw [CompileScope.placement, CompileScope.placement, ← hc.members]
  refine (hs.allModelsRead hR hc.named).bind ?_
  rintro models _ rfl
  exact .refl _

omit hR hs in
/-- The conjuncts on dimensions stand at the same positions. -/
private theorem inner {Q : Query → Query → Prop} {conjuncts conjuncts' : List Conjunct}
    (h : List.Forall₂ (Conjunct.Related Q scope.repository) conjuncts conjuncts') :
    List.Forall₂ (fun x y => Conjunct.Related Q scope.repository x.1 y.1 ∧ x.2 = y.2)
      (conjuncts.zipIdx.filter fun x => x.1.level = .dimension)
      (conjuncts'.zipIdx.filter fun x => x.1.level = .dimension) := by
  -- The positions count from an arbitrary start for the sake of the induction.
  generalize 0 = start
  induction h generalizing start with
  | nil => exact .nil
  | cons hc _ ih =>
    rw [List.zipIdx_cons, List.zipIdx_cons, List.filter_cons, List.filter_cons, hc.level]
    split_ifs
    · exact .cons ⟨hc, rfl⟩ (ih _)
    · exact ih _

/-- Related conjuncts give one and the same segment. -/
private theorem segment {Q : Query → Query → Prop} (label : String) {group : SegmentGroup}
    (hgroup : ∀ m ∈ group.metrics, scope.repository.IsMember m) {dimensions : List Member}
    (hdim : ∀ m ∈ dimensions, scope.repository.IsMember m) {conjuncts conjuncts' : List Conjunct}
    (hconj : List.Forall₂ (Conjunct.Related Q scope.repository) conjuncts conjuncts') :
    Agree (fun s s' => (∀ m ∈ s.metrics, scope.repository.IsMember m) ∧ s = s')
      (scope.segment label group dimensions conjuncts)
      (scope'.segment label group dimensions conjuncts') := by
  rw [CompileScope.segment, CompileScope.segment, hs.repository]
  dsimp only
  have hinner := inner hconj
  set found := conjuncts.zipIdx.filter fun x => x.1.level = .dimension
  set found' := conjuncts'.zipIdx.filter fun x => x.1.level = .dimension
  have hmembers : (found.flatMap fun x => x.1.members) = found'.flatMap fun x => x.1.members :=
    flatMap_eq_of_forall₂ hinner fun x y hxy => hxy.1.members
  have hread : ∀ m ∈ group.metrics ++ dimensions ++ found.flatMap fun x => x.1.members,
      scope.repository.IsMember m := by
    intro m hm
    rw [List.mem_append, List.mem_append, List.mem_flatMap] at hm
    rcases hm with (hm | hm) | ⟨x, hx, hm⟩
    · exact hgroup m hm
    · exact hdim m hm
    · exact Conjunct.forall_named hconj x.1
        (List.fst_mem_of_mem_zipIdx (List.mem_filter.1 hx).1) m hm
  rw [← hmembers]
  refine (hs.allModelsRead hR hread).bind ?_
  rintro read _ rfl
  -- The tree and its joins depend on the repository and the required models alone, which are the
  -- same.
  refine (Agree.refl _).bind ?_
  rintro tree _ rfl
  refine (Agree.refl _).bind ?_
  rintro joins _ rfl
  have hfilters : Agree Eq
      (found.mapM fun x => do
        return (⟨x.2, ← scope.placement (innerReached group.anchor joins) x.1⟩ : PlacedFilter))
      (found'.mapM fun x => do
        return ⟨x.2, ← scope'.placement (innerReached group.anchor joins) x.1⟩) := by
    refine (Agree.mapM (Q := Eq) ?_ hinner).imp fun _ _ h => List.forall₂_eq_eq_eq ▸ h
    rintro ⟨c, i⟩ ⟨c', _⟩ ⟨hc, rfl⟩
    exact (hs.placement hR _ hc).bind fun _ _ h => .pure (congrArg (PlacedFilter.mk i) h)
  refine hfilters.bind ?_
  rintro filters _ rfl
  exact .pure ⟨hgroup, rfl⟩

/-- Alike queries are taken apart in the same way. -/
theorem expand {Q : Query → Query → Prop} {q q' : Query} (hq : q.AlikeUpTo Q q') :
    Agree (Expansion.Related Q scope.repository) (scope.expand q) (scope'.expand q') := by
  rw [CompileScope.expand, CompileScope.expand, ← hq.dimensions, ← hq.metrics]
  -- Validation of the filter gives no value, so nothing is to be compared where both sides pass it.
  have hany (x y : Result Unit) : Agree (fun _ _ => True) x y := fun _ _ _ _ => trivial
  have hfilters : List.Forall₂ (Filter.Alike Q) ((q.filter.map Filter.conjuncts).getD [])
      ((q'.filter.map Filter.conjuncts).getD []) := by
    have hfilter := hq.filter
    cases hf : q.filter <;> cases hf' : q'.filter <;> rw [hf, hf'] at hfilter
    · exact .nil
    · cases hfilter
    · cases hfilter
    · cases hfilter with
      | some h => exact h.conjuncts
  refine (hany _ _).bind fun _ _ _ => ?_
  refine (hs.requested _ _).bind ?_
  rintro dimensions _ ⟨rfl, hdim⟩
  refine (hs.requested _ _).bind ?_
  rintro metrics _ ⟨rfl, hmet⟩
  dsimp only
  split_ifs
  · exact .error_left
  refine (Agree.mapM (fun f f' hf => hs.conjunct dimensions hf) hfilters).bind ?_
  intro conjuncts conjuncts' hconj
  have hmembers : conjuncts.flatMap (·.members) = conjuncts'.flatMap (·.members) :=
    flatMap_eq_of_forall₂ hconj fun c c' hc => hc.members
  -- Metrics come from the request and from the conditions; both were found in the repository.
  have hall : ∀ m ∈ addAllNewBy Member.path metrics
      ((conjuncts.flatMap (·.members)).filter (·.isMetric)), scope.repository.IsMember m := by
    intro m hm
    rcases mem_or_mem_of_mem_addAllNewBy hm with hm | hm
    · exact hmet m hm
    · obtain ⟨c, hc, hm⟩ := List.mem_flatMap.1 (List.mem_filter.1 hm).1
      exact Conjunct.forall_named hconj c hc m hm
  rw [← hmembers]
  refine (hs.groups hR dimensions hall).bind ?_
  rintro groups _ ⟨rfl, hgroups⟩
  refine (Agree.mapM_self (Q := fun s s' => (∀ m ∈ s.metrics, scope.repository.IsMember m) ∧ s = s')
    fun x hx => hs.segment hR _ (hgroups x.1 (List.fst_mem_of_mem_zipIdx hx)) hdim hconj).bind ?_
  intro segments segments' hsegments
  rw [List.forall₂_and_left, List.forall₂_eq_eq_eq] at hsegments
  obtain ⟨hnamed, rfl⟩ := hsegments
  exact .pure ⟨rfl, rfl, rfl, hconj, hdim, hnamed⟩

end CompileScope.Related

end MetricLayer
