import MetricLayer.Proofs.Repository.JoinTree
import MetricLayer.Proofs.Repository.Member
import MetricLayer.Proofs.Segment.Orientation
import MetricLayer.Proofs.Segment.Relation

/-!
# What an expansion is made of

Where a query has been taken apart, each step of the way has succeeded:

- `CompileScope.IsExpansion` — the members, conjuncts and groups that the segments are built from;
- `CompileScope.IsConjunct` — the members that a condition reads and where it is evaluated;
- `CompileScope.IsSegment` — the tree, the joins and the places of the conditions of a segment;
- `CompileScope.IsGroup` — the metrics of a group belong to its anchor and read the same models
  across joins that multiply rows.
-/

namespace MetricLayer

/-- The conjuncts that are evaluated inside segments, with their positions. -/
def innerConjuncts (conjuncts : List Conjunct) : List (Conjunct × Nat) :=
  conjuncts.zipIdx.filter fun (c, _) => c.level = .dimension

namespace CompileScope

variable {scope : CompileScope}

/-! ## Conjuncts -/

/-- Whether a condition reads a metric. -/
def readsMetric (scope : CompileScope) (f : Filter) : Bool :=
  f.members.any fun path =>
    match scope.repository.member path with
    | .ok m => m.isMetric
    | .error _ => false

/-- A conjunct of a filter with the members that it reads. -/
structure IsConjunct (scope : CompileScope) (f : Filter) (c : Conjunct) : Prop where
  filter : c.filter = f
  members : List.Forall₂ (fun path m => scope.repository.member path = .ok m) f.members c.members
  /-- What reads a metric is evaluated on the root. -/
  level : c.level = if scope.readsMetric f then .root else .dimension

private theorem readsMetric_eq {f : Filter} {members : List Member}
    (h : List.Forall₂ (fun path m => scope.repository.member path = .ok m) f.members members) :
    scope.readsMetric f = members.any (·.isMetric) := by
  unfold readsMetric
  generalize f.members = paths at h
  induction h with
  | nil => rfl
  | cons hm _ ih => simp [hm, ih]

/-- A conjunct that is read is a conjunct of its filter. -/
theorem isConjunct_of_conjunct {dimensions : List Member} {f : Filter} {c : Conjunct}
    (h : scope.conjunct dimensions f = .ok c) : scope.IsConjunct f c := by
  unfold conjunct at h
  obtain ⟨members, hmembers, h⟩ := exists_ok_of_bind h
  have hall := Agree.forall₂_of_mapM hmembers
  have hreads := readsMetric_eq hall
  by_cases hmetric : members.any (·.isMetric)
  · simp only [hmetric, if_true] at h
    split at h
    · cases h
    · obtain rfl := Except.ok.inj h
      exact ⟨rfl, hall, by simp [hreads, hmetric]⟩
  · simp only [hmetric] at h
    obtain rfl := Except.ok.inj h
    exact ⟨rfl, hall, by simp [hreads, hmetric]⟩

theorem IsConjunct.isMember {f : Filter} {c : Conjunct} (h : scope.IsConjunct f c) {m : Member}
    (hm : m ∈ c.members) : scope.repository.IsMember m := by
  obtain ⟨path, -, hpath⟩ := exists_mem_of_forall₂ h.members hm
  exact ⟨path, hpath⟩

/-- A condition that reads a metric reads only requested dimensions beside it. -/
private theorem path_mem_of_conjunct {dimensions : List Member} {f : Filter} {c : Conjunct}
    (h : scope.conjunct dimensions f = .ok c) (hlevel : c.level = .root) :
    ∀ m ∈ c.members, m.isMetric = false → m.path ∈ dimensions.map (·.path) := by
  unfold conjunct at h
  obtain ⟨members, -, h⟩ := exists_ok_of_bind h
  by_cases hmetric : members.any (·.isMetric)
  · simp only [hmetric, if_true] at h
    split at h
    · cases h
    · rename_i hnone
      obtain rfl := Except.ok.inj h
      intro m hm hplain
      simpa [hplain] using List.find?_eq_none.1 hnone m hm
  · simp only [hmetric] at h
    obtain rfl := Except.ok.inj h
    cases hlevel

/-! ## Segments -/

/-- A segment built for a group of metrics. -/
structure IsSegment (scope : CompileScope) (label : String) (group : SegmentGroup)
    (dimensions : List Member) (conjuncts : List Conjunct) (s : Segment) : Prop where
  label : s.label = label
  anchor : s.anchor = group.anchor
  metrics : s.metrics = group.metrics
  /-- The required models are those that members and conditions read, the anchor first. -/
  required : ∃ read, scope.allModelsRead (group.metrics ++ dimensions ++
    (innerConjuncts conjuncts).flatMap fun (c, _) => c.members) = .ok read ∧
      s.required = distinct (group.anchor :: read)
  tree : scope.repository.graph.joinTree s.required = .ok s.tree
  joins : s.joins.map (·.toOrientedJoin) = s.tree.orient s.anchor
  kinds : ∀ j ∈ s.joins, ∃ declared, scope.repository.join? j.join = some declared ∧
    j.kind = DeclaredKind.joinKind declared.kind
  /-- Every conjunct on dimensions has one place. -/
  filters : List.Forall₂ (fun x p => p.conjunct = x.2 ∧
    scope.placement (innerReached s.anchor s.joins) x.1 = .ok p.placement)
      (innerConjuncts conjuncts) s.filters

/-- A segment that is built is the segment of its group. -/
theorem isSegment_of_segment {label : String} {group : SegmentGroup} {dimensions : List Member}
    {conjuncts : List Conjunct} {s : Segment}
    (h : scope.segment label group dimensions conjuncts = .ok s) :
    scope.IsSegment label group dimensions conjuncts s := by
  rw [segment] at h
  obtain ⟨read, hread, h⟩ := exists_ok_of_bind h
  obtain ⟨tree, htree, h⟩ := exists_ok_of_bind h
  obtain ⟨joins, hjoins, h⟩ := exists_ok_of_bind h
  obtain ⟨filters, hfilters, h⟩ := exists_ok_of_bind h
  obtain rfl := Except.ok.inj h
  -- Each join keeps its direction and position when it gets its kind.
  have hsteps : List.Forall₂ (fun j joined => (∃ declared,
      scope.repository.join? joined.join = some declared ∧
        joined.kind = DeclaredKind.joinKind declared.kind) ∧ joined.toOrientedJoin = j)
      (tree.orient group.anchor) joins := by
    refine (Agree.forall₂_of_mapM hjoins).imp fun j joined hj => ?_
    obtain ⟨declared, hdeclared, hj⟩ := exists_ok_of_bind hj
    obtain rfl := Except.ok.inj hj
    exact ⟨⟨declared, Repository.join?_of_declared hdeclared, rfl⟩, rfl⟩
  obtain ⟨hkinds, heq⟩ := (List.forall₂_and_left _ _).1 hsteps.flip
  refine ⟨rfl, rfl, rfl, ⟨read, hread, rfl⟩, htree, ?_, hkinds, ?_⟩
  · rw [← List.forall₂_eq_eq_eq, List.forall₂_map_left_iff]
    exact heq
  · refine (Agree.forall₂_of_mapM hfilters).imp fun x p hp => ?_
    obtain ⟨placement, hplacement, hp⟩ := exists_ok_of_bind hp
    obtain rfl := Except.ok.inj hp
    exact ⟨rfl, hplacement⟩

/-- What one of several members reads is among what all of them read. -/
theorem mem_of_allModelsRead {members : List Member} {read models : List String} {m : Member}
    (h : scope.allModelsRead members = .ok read) (hm : m ∈ members)
    (hmodels : scope.modelsRead m = .ok models) : ∀ b ∈ models, b ∈ read := by
  obtain ⟨all, hall, h⟩ := exists_ok_of_bind h
  obtain rfl := Except.ok.inj h
  obtain ⟨found, hfound, heq⟩ := exists_mem_of_forall₂ (Agree.forall₂_of_mapM hall).flip hm
  obtain rfl := Except.ok.inj (heq.symm.trans hmodels)
  exact fun b hb => List.mem_flatten.2 ⟨found, hfound, hb⟩

/-- What is reached by inner joins alone is the anchor, or an inner join leads to it. -/
theorem of_mem_innerReached {anchor m : String} {joins : List SegmentJoin}
    (h : m ∈ innerReached anchor joins) : m = anchor ∨ ∃ j ∈ joins, j.kind = .inner ∧ j.child = m := by
  -- Generalised over the models that are reached so far.
  have hfold (joins : List SegmentJoin) (reached : List String)
      (hm : m ∈ joins.foldl (fun reached j => if j.kind = .inner ∧ j.parent ∈ reached then
        reached ++ [j.child] else reached) reached) :
      m ∈ reached ∨ ∃ j ∈ joins, j.kind = .inner ∧ j.child = m := by
    induction joins generalizing reached with
    | nil => exact .inl hm
    | cons j rest ih =>
      rcases ih _ hm with hmem | ⟨j', hj', hinner⟩
      · dsimp only at hmem
        split_ifs at hmem with hinner
        · rcases List.mem_append.1 hmem with hmem | hmem
          · exact .inl hmem
          · exact .inr ⟨j, List.mem_cons_self, hinner.1, (List.mem_singleton.1 hmem).symm⟩
        · exact .inl hmem
      · exact .inr ⟨j', List.mem_cons_of_mem _ hj', hinner⟩
  simpa using hfold joins [anchor] h

/-- A conjunct is evaluated in the statement of a model where it reads that model only and inner
joins reach it. -/
theorem of_placement_model {reached : List String} {c : Conjunct} {name : String}
    (h : scope.placement reached c = .ok (.model name)) : name ∈ reached ∧
      ∃ read, scope.allModelsRead c.members = .ok read ∧ ∀ b, b ∈ read ↔ b = name := by
  unfold placement at h
  obtain ⟨read, hread, h⟩ := exists_ok_of_bind h
  split at h
  · rename_i only honly
    split_ifs at h with hmem
    · obtain rfl : only = name := Placement.model.inj (Except.ok.inj h)
      refine ⟨hmem, read, hread, fun b => ?_⟩
      rw [← mem_distinct, honly, List.mem_singleton]
    · cases h
  · cases h

namespace IsSegment

variable {label : String} {group : SegmentGroup} {dimensions : List Member}
  {conjuncts : List Conjunct} {s : Segment}
  (h : scope.IsSegment label group dimensions conjuncts s)

include h

theorem anchor_mem_required : s.anchor ∈ s.required := by
  obtain ⟨read, -, hrequired⟩ := h.required
  rw [h.anchor, hrequired]
  exact mem_distinct.2 List.mem_cons_self

/-- The models that the metrics of the segment, the requested dimensions and the conditions on
dimensions read are required. -/
theorem mem_required {m : Member} (hm : m ∈ s.metrics ∨ m ∈ dimensions ∨
      ∃ x ∈ innerConjuncts conjuncts, m ∈ x.1.members) {models : List String}
    (hmodels : scope.modelsRead m = .ok models) : ∀ b ∈ models, b ∈ s.required := by
  intro b hb
  obtain ⟨read, hread, hrequired⟩ := h.required
  rw [h.metrics] at hm
  have hmem : m ∈ group.metrics ++ dimensions ++
      (innerConjuncts conjuncts).flatMap fun (c, _) => c.members := by
    rw [List.mem_append, List.mem_append, List.mem_flatMap, or_assoc]
    exact hm
  rw [hrequired]
  exact mem_distinct.2 (List.mem_cons_of_mem _ (mem_of_allModelsRead hread hmem hmodels b hb))

/-- A place belongs to the conjunct on dimensions at its position. -/
theorem exists_innerConjunct {p : PlacedFilter} (hp : p ∈ s.filters) :
    ∃ x ∈ innerConjuncts conjuncts, conjuncts[p.conjunct]? = some x.1 ∧
      scope.placement (innerReached s.anchor s.joins) x.1 = .ok p.placement := by
  obtain ⟨x, hx, hposition, hplacement⟩ := exists_mem_of_forall₂ h.filters hp
  refine ⟨x, hx, ?_, hplacement⟩
  rw [hposition]
  exact List.mk_mem_zipIdx_iff_getElem?.1 (List.mem_filter.1 hx).1

/-- A place belongs to the conjunct at its position. -/
theorem exists_conjunct {p : PlacedFilter} (hp : p ∈ s.filters) :
    ∃ c, conjuncts[p.conjunct]? = some c ∧
      scope.placement (innerReached s.anchor s.joins) c = .ok p.placement := by
  obtain ⟨x, -, hx⟩ := h.exists_innerConjunct hp
  exact ⟨x.1, hx⟩

/-- Places for one position are the same. -/
theorem placement_eq {p p' : PlacedFilter} (hp : p ∈ s.filters) (hp' : p' ∈ s.filters)
    (hposition : p.conjunct = p'.conjunct) : p.placement = p'.placement := by
  obtain ⟨c, hc, hplacement⟩ := h.exists_conjunct hp
  obtain ⟨c', hc', hplacement'⟩ := h.exists_conjunct hp'
  rw [hposition, hc'] at hc
  obtain rfl := Option.some.inj hc
  exact Except.ok.inj (hplacement.symm.trans hplacement')

/-- A condition is pushed down to the anchor or to a model that an inner join leads to. -/
theorem of_placed_model {p : PlacedFilter} (hp : p ∈ s.filters) {m : String}
    (hm : p.placement = .model m) :
    m = s.anchor ∨ ∃ j ∈ s.joins, j.kind = .inner ∧ j.child = m := by
  obtain ⟨c, -, hplacement⟩ := h.exists_conjunct hp
  rw [hm] at hplacement
  exact of_mem_innerReached (of_placement_model hplacement).1

/-- The joins of a segment add the models of its tree one after the other. -/
theorem growFrom : GrowFrom [s.anchor] (s.joins.map (·.toOrientedJoin)) := by
  rw [h.joins]
  exact s.tree.growFrom_orient s.anchor

theorem mem_models {m : String} (hm : m ∈ s.required) : m ∈ s.tree.models :=
  JoinGraph.mem_models_of_joinTree h.tree hm

/-- A join of a segment leads between the two models of the declared join. -/
theorem ends_of_mem_joins {j : SegmentJoin} (hj : j ∈ s.joins) {declared : Join}
    (hdeclared : scope.repository.join? j.join = some declared) :
    (declared.origin = j.parent ∧ declared.target = j.child) ∨
      (declared.origin = j.child ∧ declared.target = j.parent) := by
  have hmem : j.toOrientedJoin ∈ s.tree.orient s.anchor := by
    rw [← h.joins]
    exact List.mem_map_of_mem hj
  obtain ⟨-, e, he, hjoin, hends⟩ := JoinTree.of_mem_orientFrom hmem
  obtain ⟨declared', hdeclared', hends'⟩ := Repository.declared_of_joinTree h.tree e he
  rw [← hjoin, hdeclared] at hdeclared'
  obtain rfl := Option.some.inj hdeclared'
  grind

variable (hr : scope.repository.Valid)

include hr

theorem isTree : s.tree.IsTree :=
  JoinGraph.isTree_of_joinTree hr.regular h.tree

/-- The models of a segment are its anchor and those that its joins lead to, each once. -/
theorem perm_models : (s.anchor :: s.joins.map (·.child)).Perm s.tree.models := by
  have hperm := (h.isTree hr).perm_models (h.mem_models h.anchor_mem_required)
  rwa [← h.joins, List.map_map] at hperm

end IsSegment

/-! ## Groups -/

/-- A group of metrics of one model that read the same models across joins that multiply rows. -/
def IsGroup (scope : CompileScope) (g : SegmentGroup) : Prop :=
  ∀ m ∈ g.metrics, m.model.name = g.anchor ∧ scope.fannedOut m = .ok g.fanned

theorem isGroup_of_groups {dimensions metrics : List Member} {gs : List SegmentGroup}
    (h : scope.groups dimensions metrics = .ok gs) : ∀ g ∈ gs, scope.IsGroup g := by
  intro g hg m hm
  obtain ⟨xs, -, hfanned, ⟨-, first, -, rfl⟩ | ⟨-, rfl⟩⟩ := exists_of_groups h
  · obtain rfl := List.mem_singleton.1 hg
    cases hm
  · obtain ⟨key, -, rfl⟩ := List.mem_map.1 hg
    obtain ⟨x, hx, rfl, rfl⟩ := SegmentGroup.mem_of_mem_collect hm
    exact ⟨rfl, hfanned x hx⟩

/-- The metrics of the groups are those that are grouped. -/
theorem mem_of_groups {dimensions metrics : List Member} {gs : List SegmentGroup}
    (h : scope.groups dimensions metrics = .ok gs) {g : SegmentGroup} (hg : g ∈ gs) {m : Member}
    (hm : m ∈ g.metrics) : m ∈ metrics := by
  obtain ⟨xs, rfl, -, ⟨-, first, -, rfl⟩ | ⟨-, rfl⟩⟩ := exists_of_groups h
  · obtain rfl := List.mem_singleton.1 hg
    cases hm
  · obtain ⟨key, -, rfl⟩ := List.mem_map.1 hg
    obtain ⟨x, hx, -, rfl⟩ := SegmentGroup.mem_of_mem_collect hm
    exact List.mem_map_of_mem hx

/-! ## Expansions -/

/-- Requested members are members of the repository. -/
theorem isMember_of_requested {kind : MemberKind} {paths : List String}
    {members : List Member} (h : scope.requested kind paths = .ok members) :
    ∀ m ∈ members, scope.repository.IsMember m := by
  intro m hm
  obtain ⟨found, hfound, h⟩ := exists_ok_of_bind h
  obtain rfl := Except.ok.inj h
  have hmem := (mem_or_mem_of_mem_addAllNewBy hm).resolve_left List.not_mem_nil
  obtain ⟨path, -, hpath⟩ := Agree.exists_of_mem_mapM hfound hmem
  cases kind with
  | dimension => exact ⟨path, Repository.member_of_dimension hpath⟩
  | metric => exact ⟨path, Repository.member_of_metric hpath⟩

/-- Requested members are of the kind that is asked for. -/
private theorem kind_of_requested {kind : MemberKind} {paths : List String} {members : List Member}
    (h : scope.requested kind paths = .ok members) :
    ∀ m ∈ members, m.isMetric = decide (kind = .metric) := by
  intro m hm
  obtain ⟨found, hfound, h⟩ := exists_ok_of_bind h
  obtain rfl := Except.ok.inj h
  have hmem := (mem_or_mem_of_mem_addAllNewBy hm).resolve_left List.not_mem_nil
  obtain ⟨path, -, hpath⟩ := Agree.exists_of_mem_mapM hfound hmem
  cases kind with
  | dimension =>
    obtain ⟨m', -, hpath⟩ := exists_ok_of_bind (hpath : scope.repository.dimension path = .ok m)
    obtain ⟨hmetric, hpath⟩ := not_and_ok_of_check hpath
    obtain rfl := Except.ok.inj hpath
    simpa using hmetric
  | metric =>
    obtain ⟨m', -, hpath⟩ := exists_ok_of_bind (hpath : scope.repository.metric path = .ok m)
    split_ifs at hpath with hmetric
    obtain rfl := Except.ok.inj hpath
    simpa using hmetric

/-- Members are requested where a path is given. -/
private theorem requested_eq_nil {kind : MemberKind} {paths : List String} {members : List Member}
    (h : scope.requested kind paths = .ok members) : members = [] ↔ paths = [] := by
  obtain ⟨found, hfound, h⟩ := exists_ok_of_bind h
  obtain rfl := Except.ok.inj h
  have hlength := (Agree.forall₂_of_mapM hfound).length_eq
  have hpaths : found = [] ↔ paths = [] := by
    rw [← List.length_eq_zero_iff, ← List.length_eq_zero_iff, hlength]
  rw [← hpaths]
  refine ⟨fun hnil => List.eq_nil_iff_forall_not_mem.2 fun m hm => ?_, fun hnil => by rw [hnil]; rfl⟩
  have hkey : m.path ∈ (addAllNewBy Member.path [] found).map Member.path :=
    mem_keys_addAllNewBy (.inr hm)
  simp [hnil] at hkey

/-- A query taken apart. -/
structure IsExpansion (scope : CompileScope) (query : Query) (e : Expansion) : Prop where
  dimensions : scope.requested .dimension query.dimensions = .ok e.dimensions
  metrics : scope.requested .metric query.metrics = .ok e.metrics
  conjuncts : List.Forall₂ scope.IsConjunct ((query.filter.map Filter.conjuncts).getD [])
    e.conjuncts
  /-- On the root, conditions read requested dimensions only. -/
  known : ∀ c ∈ e.conjuncts, c.level = .root → ∀ m ∈ c.members, m.isMetric = false →
    m.path ∈ e.dimensions.map (·.path)
  /-- One segment for each group of the metrics that are requested or that conditions read. -/
  segments : ∃ groups, scope.groups e.dimensions (addAllNewBy Member.path e.metrics
      ((e.conjuncts.flatMap (·.members)).filter (·.isMetric))) = .ok groups ∧
    List.Forall₂ (fun x s => scope.IsSegment ("s" ++ Nat.repr x.2) x.1 e.dimensions e.conjuncts s)
      groups.zipIdx e.segments

/-- The steps in which a query is taken apart. -/
theorem exists_of_expand {query : Query} {e : Expansion} (h : scope.expand query = .ok e) :
    ∃ all gs, scope.requested .dimension query.dimensions = .ok e.dimensions ∧
      scope.requested .metric query.metrics = .ok e.metrics ∧
      (e.dimensions = [] → e.metrics ≠ []) ∧
      ((query.filter.map Filter.conjuncts).getD []).mapM (scope.conjunct e.dimensions) =
        .ok e.conjuncts ∧
      all = addAllNewBy Member.path e.metrics
        ((e.conjuncts.flatMap (·.members)).filter (·.isMetric)) ∧
      e.hidden = all.drop e.metrics.length ∧
      scope.groups e.dimensions all = .ok gs ∧
      (gs.zipIdx.mapM fun x =>
        scope.segment ("s" ++ Nat.repr x.2) x.1 e.dimensions e.conjuncts) = .ok e.segments := by
  -- The first step checks the filter and gives no value.
  rw [expand] at h
  obtain ⟨-, -, h⟩ := exists_ok_of_bind h
  obtain ⟨dimensions, hdimensions, h⟩ := exists_ok_of_bind h
  obtain ⟨metrics, hmetrics, h⟩ := exists_ok_of_bind h
  obtain ⟨hrequested, h⟩ := not_and_ok_of_check h
  obtain ⟨conjuncts, hconjuncts, h⟩ := exists_ok_of_bind h
  obtain ⟨groups, hgroups, h⟩ := exists_ok_of_bind h
  obtain ⟨segments, hsegments, h⟩ := exists_ok_of_bind h
  obtain rfl := Except.ok.inj h
  refine ⟨_, groups, hdimensions, hmetrics, ?_, hconjuncts, rfl, rfl, hgroups, hsegments⟩
  rintro (rfl : dimensions = []) (rfl : metrics = [])
  exact hrequested rfl

/-- An expansion that succeeds is an expansion of its query. -/
theorem isExpansion_of_expand {query : Query} {e : Expansion} (h : scope.expand query = .ok e) :
    scope.IsExpansion query e := by
  obtain ⟨all, gs, hdimensions, hmetrics, -, hconjuncts, rfl, -, hgroups, hsegments⟩ :=
    exists_of_expand h
  refine ⟨hdimensions, hmetrics, ?_, ?_, gs, hgroups, ?_⟩
  · exact (Agree.forall₂_of_mapM hconjuncts).imp fun f c hc => isConjunct_of_conjunct hc
  · intro c hc hlevel
    obtain ⟨f, -, hf⟩ := Agree.exists_of_mem_mapM hconjuncts hc
    exact path_mem_of_conjunct hf hlevel
  · exact (Agree.forall₂_of_mapM hsegments).imp fun x s hs => isSegment_of_segment hs

/-- A query without a requested dimension requests a metric. -/
theorem metrics_ne_nil_of_expand {query : Query} {e : Expansion} (h : scope.expand query = .ok e)
    (hdimensions : e.dimensions = []) : e.metrics ≠ [] := by
  obtain ⟨all, gs, -, -, hrequested, -⟩ := exists_of_expand h
  exact hrequested hdimensions

/-- The requested metrics and the hidden ones are all metrics that are requested or that conditions
read. -/
theorem metrics_append_hidden_of_expand {query : Query} {e : Expansion}
    (h : scope.expand query = .ok e) : e.metrics ++ e.hidden = addAllNewBy Member.path e.metrics
      ((e.conjuncts.flatMap (·.members)).filter (·.isMetric)) := by
  obtain ⟨all, gs, -, -, -, -, rfl, hhidden, -⟩ := exists_of_expand h
  rw [hhidden]
  exact List.prefix_iff_eq_append.1 (prefix_addAllNewBy _ _ _)

/-- Every segment of an expansion is that of a group. -/
theorem IsExpansion.exists_group {query : Query} {e : Expansion} (h : scope.IsExpansion query e)
    {s : Segment} (hs : s ∈ e.segments) : ∃ label group, scope.IsGroup group ∧
      scope.IsSegment label group e.dimensions e.conjuncts s := by
  obtain ⟨groups, hgroups, hsegments⟩ := h.segments
  obtain ⟨⟨group, i⟩, hgroup, hsegment⟩ := exists_mem_of_forall₂ hsegments hs
  exact ⟨_, group, isGroup_of_groups hgroups _ (List.fst_mem_of_mem_zipIdx hgroup), hsegment⟩

section Members

variable {query : Query} {e : Expansion} (h : scope.IsExpansion query e)

include h

theorem IsExpansion.isMember_of_dimension {m : Member} (hm : m ∈ e.dimensions) :
    scope.repository.IsMember m :=
  isMember_of_requested h.dimensions m hm

theorem IsExpansion.dimensions_eq_nil : e.dimensions = [] ↔ query.dimensions = [] :=
  requested_eq_nil h.dimensions

theorem IsExpansion.metrics_eq_nil : e.metrics = [] ↔ query.metrics = [] :=
  requested_eq_nil h.metrics

theorem IsExpansion.isMetric_of_metric {m : Member} (hm : m ∈ e.metrics) : m.isMetric = true :=
  (kind_of_requested h.metrics m hm).trans (by decide)

theorem IsExpansion.isMetric_of_dimension {m : Member} (hm : m ∈ e.dimensions) :
    m.isMetric = false :=
  (kind_of_requested h.dimensions m hm).trans (by decide)

theorem IsExpansion.exists_isConjunct {c : Conjunct} (hc : c ∈ e.conjuncts) :
    ∃ f, scope.IsConjunct f c := by
  obtain ⟨f, -, hf⟩ := exists_mem_of_forall₂ h.conjuncts hc
  exact ⟨f, hf⟩

/-- Every metric of a segment is a member of the repository. -/
theorem IsExpansion.isMember_of_metric {s : Segment} (hs : s ∈ e.segments) {m : Member}
    (hm : m ∈ s.metrics) : scope.repository.IsMember m := by
  obtain ⟨groups, hgroups, hsegments⟩ := h.segments
  obtain ⟨⟨group, i⟩, hgroup, hsegment⟩ := exists_mem_of_forall₂ hsegments hs
  rw [hsegment.metrics] at hm
  have hall := mem_of_groups hgroups (List.fst_mem_of_mem_zipIdx hgroup) hm
  -- A metric is requested, or a condition reads it.
  rcases mem_or_mem_of_mem_addAllNewBy hall with hmetric | hread
  · exact isMember_of_requested h.metrics m hmetric
  · obtain ⟨c, hc, hmem⟩ := List.mem_flatMap.1 (List.mem_filter.1 hread).1
    obtain ⟨f, hf⟩ := h.exists_isConjunct hc
    exact hf.isMember hmem

/-- The segments have different names. -/
theorem IsExpansion.nodup_labels : (e.segments.map (·.label)).Nodup := by
  obtain ⟨groups, -, hsegments⟩ := h.segments
  have hlabels : groups.zipIdx.map (fun x => "s" ++ Nat.repr x.2) = e.segments.map (·.label) :=
    map_eq_map_of_forall₂ (hsegments.imp fun x s hs => hs.label.symm)
  have hnames : groups.zipIdx.map (fun x => "s" ++ Nat.repr x.2) =
      (List.range' 0 groups.length).map fun i => "s" ++ Nat.repr i := by
    rw [← List.zipIdx_map_snd 0 groups, List.map_map]
    rfl
  rw [← hlabels, hnames]
  refine (List.nodup_range' 1).map fun i j hij => ?_
  -- A number is read back from its digits.
  have hdigits : Nat.toDigits 10 i = Nat.toDigits 10 j := by
    simpa [Nat.repr_eq_ofList_toDigits, String.ofList_inj] using hij
  simpa using congrArg (Nat.ofDigitChars 10 · 0) hdigits

end Members

end CompileScope

end MetricLayer
