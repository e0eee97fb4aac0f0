import MetricLayer.Proofs.Member.Consistency
import MetricLayer.Proofs.Segment.Expand

/-!
# Taking queries apart without internal errors

Between declared models a join tree can be missing only for want of joins, every join of a tree is
declared, and definitions read declared models. So a query that cannot be taken apart is to blame
for it (`CompileScope.consistent_expand`).
-/

namespace MetricLayer

/-! ## Join trees -/

namespace Repository

variable {r : Repository}

/-- Between declared models a join tree can be missing only for want of joins. -/
theorem consistent_joinTree {models : List Model} {joins : List Join}
    (hbuild : build models joins = .ok r) {requested : List String}
    (hknown : ∀ name ∈ requested, r.Knows name) : Consistent (r.graph.joinTree requested) := by
  intro e he
  have houtcome := treeOutcome_joinTree hbuild requested
  rw [he] at houtcome
  cases houtcome with
  | unknownModel hfirst =>
    have hunknown := List.find?_some hfirst
    exact absurd (hknown _ (List.mem_of_find?_eq_some hfirst)) (by simpa [Knows] using hunknown)
  | noPath => rfl

/-- A join tree connects declared models. -/
theorem knows_of_joinTree {models : List Model} {joins : List Join}
    (hbuild : build models joins = .ok r) {requested : List String} {t : JoinTree}
    (htree : r.graph.joinTree requested = .ok t) : ∀ name ∈ requested, r.Knows name := by
  have houtcome := treeOutcome_joinTree hbuild requested
  rw [htree] at houtcome
  cases houtcome with
  | tree hknown => exact hknown

/-- Every join of an oriented tree is declared, and it leads between declared models. -/
theorem Valid.exists_declared_of_mem_orient (h : r.Valid) {requested : List String} {t : JoinTree}
    (htree : r.graph.joinTree requested = .ok t) {anchor : String} {j : OrientedJoin}
    (hj : j ∈ t.orient anchor) :
    ∃ declared, r.join? j.join = some declared ∧ r.declared j = .ok declared ∧
      r.Knows j.child := by
  obtain ⟨-, edge, hedge, hjoin, hends⟩ := JoinTree.of_mem_orientFrom hj
  obtain ⟨declared, hdeclared, hmodels⟩ := Repository.declared_of_joinTree htree edge hedge
  rw [← hjoin] at hdeclared
  refine ⟨declared, hdeclared, by rw [Repository.declared, hdeclared], ?_⟩
  obtain ⟨horigin, htarget⟩ := h.ends declared (List.mem_of_getElem? hdeclared)
  unfold Knows
  grind

/-- Whether the way between two declared models multiplies rows can be told where there is one. -/
theorem consistent_fansOut {models : List Model} {joins : List Join}
    (hbuild : build models joins = .ok r) {origin target : String} (horigin : r.Knows origin)
    (htarget : r.Knows target) : Consistent (r.fansOut origin target) := by
  have hknown : ∀ name ∈ [origin, target], r.Knows name := by simp [horigin, htarget]
  refine (consistent_joinTree hbuild hknown).bind fun t ht => ?_
  have hdeclared : ∀ j ∈ t.orient origin, ∃ declared, r.declared j = .ok declared := fun j hj => by
    obtain ⟨declared, -, hok, -⟩ := (valid_of_build hbuild).exists_declared_of_mem_orient ht hj
    exact ⟨declared, hok⟩
  generalize t.orient origin = steps at hdeclared
  -- Every join on the way is declared, so each can be asked; the first that multiplies rows ends
  -- the run.
  induction steps with
  | nil => exact .ok _
  | cons j rest ih =>
    obtain ⟨⟨declared, hok⟩, hrest⟩ := List.forall_mem_cons.1 hdeclared
    rw [anyFansOut, hok]
    change Consistent (if _ then _ else _)
    split_ifs
    · exact .pure _
    · exact ih hrest

end Repository

/-! ## Filters -/

namespace FilterLeaf

variable (l : FilterLeaf)

private theorem consistent_scalars : Consistent l.scalars := by
  unfold scalars
  -- What is left to do once the values are there.
  extract_lets rest
  have hrest (values : List Json) : Consistent (rest values) := by
    refine Consistent.check rfl fun _ => ?_
    split
    · exact .throw rfl
    · exact .pure _
  split
  · exact .bind (.throw rfl) nofun
  · exact .bind (.throw rfl) nofun
  · exact (Consistent.pure _).bind fun values _ => hrest values
  · exact (Consistent.pure _).bind fun values _ => hrest values

private theorem consistent_allStrings {fault : FilterFault} (values : List Json)
    (h : (l.invalid fault).isInternal = false) : Consistent (l.allStrings fault values) := by
  unfold allStrings
  split
  · exact .ok _
  · exact .error h

private theorem consistent_dateStrings : Consistent l.dateStrings := by
  unfold dateStrings
  split
  · exact .ok _
  · exact l.consistent_allStrings _ rfl
  · exact .error rfl

/-- A value of the wrong shape is the fault of the request. -/
theorem consistent_check : Consistent l.check := by
  unfold check
  split
  · split_ifs
    · exact .ok _
    · exact .error rfl
  · exact l.consistent_scalars.bind fun _ _ => .pure _
  · exact l.consistent_scalars.bind fun values _ =>
      (l.consistent_allStrings values rfl).bind fun _ _ => .pure _
  · refine l.consistent_dateStrings.bind fun dates _ => ?_
    split
    · exact .pure _
    · exact .throw rfl
  · refine l.consistent_dateStrings.bind fun dates _ => ?_
    split
    · exact .pure _
    · exact .pure _
    · exact .throw rfl
  · split
    · exact .error rfl
    · split
      · exact .ok _
      · exact .error rfl

end FilterLeaf

namespace Filter

mutual

/-- Checking a filter fails by a fault of the request only. -/
theorem consistent_validate : (f : Filter) → Consistent f.validate
  | .leaf l => by
    rw [validate]
    exact l.consistent_check.bind fun _ _ => .pure ()
  | .group connective children => by
    rw [validate]
    split_ifs
    · exact .error rfl
    · exact consistent_validateAll children

theorem consistent_validateAll : (children : List Filter) → Consistent (validateAll children)
  | [] => .ok ()
  | child :: rest => (consistent_validate child).bind fun _ _ => consistent_validateAll rest

end

private theorem consistent_validateTop (f : Filter) : Consistent f.validateTop := by
  unfold validateTop
  split
  · exact consistent_validateAll _
  · exact consistent_validate _
  · exact consistent_validate _

end Filter

/-! ## Expansions -/

namespace CompileScope

variable {scope : CompileScope}

private theorem consistent_validateFilter (query : Query) : Consistent query.validateFilter := by
  unfold Query.validateFilter
  split
  · exact Filter.consistent_validateTop _
  · exact .ok ()

private theorem consistent_requested (kind : MemberKind) (paths : List String) :
    Consistent (scope.requested kind paths) := by
  refine Consistent.bind (.mapM fun path _ => ?_) fun _ _ => .pure _
  cases kind with
  | dimension => exact scope.repository.consistent_dimension path
  | metric => exact scope.repository.consistent_metric path

private theorem consistent_conjunct (dimensions : List Member) (f : Filter) :
    Consistent (scope.conjunct dimensions f) := by
  unfold conjunct
  refine Consistent.bind (.mapM fun path _ => scope.repository.consistent_member path) ?_
  intro members _
  split_ifs
  · dsimp only
    split
    · exact .throw rfl
    · exact .pure _
  · exact .pure _

/-- The models of a member of the repository are found, or its request is at fault. -/
theorem consistent_modelsRead {m : Member} (hm : scope.repository.IsMember m) :
    Consistent (scope.modelsRead m) :=
  (consistent_evaluate hm).bind fun _ _ => .pure _

theorem consistent_allModelsRead {members : List Member}
    (h : ∀ m ∈ members, scope.repository.IsMember m) : Consistent (scope.allModelsRead members) :=
  Consistent.bind (.mapM fun m hm => consistent_modelsRead (h m hm)) fun _ _ => .pure _

/-- A member reads models that the repository knows. -/
theorem knows_of_modelsRead {m : Member} (hm : scope.repository.IsMember m) {models : List String}
    (h : scope.modelsRead m = .ok models) : ∀ b ∈ models, scope.repository.Knows b := by
  obtain ⟨c, hc, h⟩ := exists_ok_of_bind h
  obtain rfl := Except.ok.inj h
  exact knows_of_evaluate hm hc

theorem knows_of_allModelsRead {members : List Member}
    (hmembers : ∀ m ∈ members, scope.repository.IsMember m) {models : List String}
    (h : scope.allModelsRead members = .ok models) : ∀ b ∈ models, scope.repository.Knows b := by
  obtain ⟨all, hall, h⟩ := exists_ok_of_bind h
  obtain rfl := Except.ok.inj h
  intro b hb
  obtain ⟨found, hfound, hb⟩ := List.mem_flatten.1 hb
  obtain ⟨m, hm, hread⟩ := Agree.exists_of_mem_mapM hall hfound
  exact knows_of_modelsRead (hmembers m hm) hread b hb

section Built

variable {models : List Model} {joins : List Join}
  (hbuild : Repository.build models joins = .ok scope.repository)

include hbuild

/-- Judging the fan-out of a member fails by a fault of the request only. -/
theorem consistent_fannedOut {m : Member} (hm : scope.repository.IsMember m) :
    Consistent (scope.fannedOut m) := by
  refine (consistent_modelsRead hm).bind fun read hread => ?_
  refine Consistent.bind (.filterM fun b hb => ?_) fun _ _ => .pure _
  have hb : scope.repository.Knows b := knows_of_modelsRead hm hread b (List.mem_filter.1 hb).1
  exact Repository.consistent_fansOut hbuild hm.knows_model hb

private theorem consistent_groups (dimensions : List Member) {metrics : List Member}
    (h : ∀ m ∈ metrics, scope.repository.IsMember m) :
    Consistent (scope.groups dimensions metrics) := by
  refine Consistent.bind (.mapM fun m hm => ?_) fun _ _ => ?_
  · exact (consistent_fannedOut hbuild (h m hm)).bind fun _ _ => .pure _
  · dsimp only
    split
    · exact .pure _
    · exact .pure _

omit hbuild in
/-- The anchor of a group is the model of a metric or of a requested dimension. -/
theorem knows_anchor_of_groups {dimensions metrics : List Member} {gs : List SegmentGroup}
    (hdimensions : ∀ m ∈ dimensions, scope.repository.IsMember m)
    (hmetrics : ∀ m ∈ metrics, scope.repository.IsMember m)
    (h : scope.groups dimensions metrics = .ok gs) :
    ∀ g ∈ gs, scope.repository.Knows g.anchor := by
  obtain ⟨xs, rfl, -, ⟨-, first, hfirst, rfl⟩ | ⟨-, rfl⟩⟩ := exists_of_groups h
  · -- Without metrics the only group is that of the first dimension.
    exact List.forall_mem_singleton.2 (hdimensions _ (List.mem_of_mem_head? hfirst)).knows_model
  · intro g hg
    obtain ⟨key, hkey, rfl⟩ := List.mem_map.1 hg
    obtain ⟨x, hx, rfl⟩ := List.mem_map.1 (mem_distinct.1 hkey)
    exact (hmetrics x.1 (List.mem_map_of_mem hx)).knows_model

/-- A segment of known models and members is built, or the request is at fault. -/
private theorem consistent_segment {label : String} {group : SegmentGroup}
    {dimensions : List Member} {conjuncts : List Conjunct}
    (hanchor : scope.repository.Knows group.anchor)
    (hmetrics : ∀ m ∈ group.metrics, scope.repository.IsMember m)
    (hdimensions : ∀ m ∈ dimensions, scope.repository.IsMember m)
    (hconjuncts : ∀ c ∈ conjuncts, ∀ m ∈ c.members, scope.repository.IsMember m) :
    Consistent (scope.segment label group dimensions conjuncts) := by
  have hinner : ∀ x ∈ conjuncts.zipIdx.filter fun x => x.1.level = .dimension,
      ∀ m ∈ x.1.members, scope.repository.IsMember m :=
    fun x hx => hconjuncts x.1 (List.fst_mem_of_mem_zipIdx (List.mem_filter.1 hx).1)
  have hmembers : ∀ m ∈ group.metrics ++ dimensions ++
      (conjuncts.zipIdx.filter fun x => x.1.level = .dimension).flatMap
        fun x => x.1.members, scope.repository.IsMember m := by
    intro m hm
    rcases List.mem_append.1 hm with hm | hm
    · exact (List.mem_append.1 hm).elim (hmetrics m) (hdimensions m)
    · obtain ⟨x, hx, hm⟩ := List.mem_flatMap.1 hm
      exact hinner x hx m hm
  unfold segment
  refine (consistent_allModelsRead hmembers).bind fun read hread => ?_
  have hrequired : ∀ name ∈ distinct (group.anchor :: read), scope.repository.Knows name := by
    intro name hname
    rcases List.mem_cons.1 (mem_distinct.1 hname) with rfl | hname
    · exact hanchor
    · exact knows_of_allModelsRead hmembers hread name hname
  refine (Repository.consistent_joinTree hbuild hrequired).bind fun tree htree => ?_
  -- An oriented join is a declared one, whichever way it is crossed.
  refine Consistent.bind (.mapM fun j hj => ?_) fun oriented _ => ?_
  · obtain ⟨declared, -, hok, -⟩ :=
      (Repository.valid_of_build hbuild).exists_declared_of_mem_orient htree hj
    rw [hok]
    exact .pure _
  · refine Consistent.bind (.mapM fun x hx => ?_) fun _ _ => .pure _
    refine Consistent.bind ?_ fun _ _ => .pure _
    refine (consistent_allModelsRead (hinner x hx)).bind fun _ _ => ?_
    split
    · exact .pure _
    · exact .pure _

/-- A query that cannot be taken apart is to blame for it. -/
theorem consistent_expand (query : Query) : Consistent (scope.expand query) := by
  unfold expand
  refine (consistent_validateFilter query).bind fun _ _ => ?_
  refine (consistent_requested _ _).bind fun dimensions hdimensions => ?_
  refine (consistent_requested _ _).bind fun metrics hmetrics => ?_
  refine .check rfl fun _ => ?_
  refine Consistent.bind (.mapM fun f _ => consistent_conjunct dimensions f) ?_
  intro conjuncts hconjuncts
  have hmember : ∀ m ∈ dimensions, scope.repository.IsMember m := isMember_of_requested hdimensions
  -- The groups are formed from requested members and from those of the conjuncts, all of them
  -- declared.
  have hread : ∀ c ∈ conjuncts, ∀ m ∈ c.members, scope.repository.IsMember m := by
    intro c hc m hm
    obtain ⟨f, -, hf⟩ := Agree.exists_of_mem_mapM hconjuncts hc
    exact (isConjunct_of_conjunct hf).isMember hm
  have hall : ∀ m ∈ addAllNewBy Member.path metrics
      ((conjuncts.flatMap (·.members)).filter (·.isMetric)), scope.repository.IsMember m := by
    intro m hm
    rcases mem_or_mem_of_mem_addAllNewBy hm with hm | hm
    · exact isMember_of_requested hmetrics m hm
    · obtain ⟨c, hc, hm⟩ := List.mem_flatMap.1 (List.mem_filter.1 hm).1
      exact hread c hc m hm
  refine (consistent_groups hbuild dimensions hall).bind fun groups hgroups => ?_
  refine Consistent.bind (.mapM fun x hx => ?_) fun _ _ => .pure _
  have hgroup := List.fst_mem_of_mem_zipIdx hx
  exact consistent_segment hbuild (knows_anchor_of_groups hmember hall hgroups _ hgroup)
    (fun m hm => hall m (mem_of_groups hgroups hgroup hm)) hmember hread

end Built

end CompileScope

end MetricLayer
