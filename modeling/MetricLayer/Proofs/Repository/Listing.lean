import MetricLayer.Proofs.Distinct
import MetricLayer.Proofs.JoinGraph.Basic
import MetricLayer.Proofs.Repository.Member

/-!
# Listed and addressable members

A validated repository lists the paths of its members, finds members by their paths, and every member
has a path of its own. The three agree:

- `Repository.WellNamed` — what validation grants to names: they are good and, each within its
  reach, unique;
- `Repository.WellNamed.member_eq_ok_iff` — a path names a member exactly where the member is offered and has
  this path, so paths and offered members determine each other;
- `Repository.mem_memberPaths_iff` — the listed paths are those of the offered members, apart from
  the ones under an aggregate.
-/

namespace MetricLayer

namespace Repository

/-! ## Names after validation -/

/-- Names can be used in paths. Those of models are unique, and so are those of the dimensions and
metrics of one model. -/
structure WellNamed (r : Repository) : Prop where
  models : (r.models.map (·.name)).Nodup
  members : ∀ m ∈ r.models, m.memberNames.Nodup
  modelName : ∀ m ∈ r.models, badName m.name = false
  memberName : ∀ m ∈ r.models, ∀ name ∈ m.memberNames, badName name = false

/-- A built repository is well named. -/
theorem wellNamed_of_build {models : List Model} {joins : List Join} {r : Repository}
    (h : build models joins = .ok r) : r.WellNamed :=
  have hformed := wellFormed_of_build h
  { models := hformed.modelsApart
    members := hformed.membersApart
    modelName := fun m hm => badName_eq_false_iff.2 (hformed.modelName m hm)
    memberName := fun m hm name hname =>
      badName_eq_false_iff.2 (hformed.memberName m hm name hname) }

section Names

variable {r : Repository} (hr : r.WellNamed) {m : Model} (hm : m ∈ r.models)

include hr hm

/-- In a well-named repository a model is the one its name stands for. -/
theorem WellNamed.model?_name : r.model? m.name = some m := find?_key_eq_some hr.models hm

theorem WellNamed.nodup_dimensions : (m.dimensions.map (·.name)).Nodup :=
  (List.nodup_append.1 (hr.members m hm)).1

theorem WellNamed.nodup_metrics : (m.metrics.map (·.name)).Nodup :=
  (List.nodup_append.1 (hr.members m hm)).2.1

/-- In a well-named repository a dimension is the one its name stands for in its model. -/
theorem WellNamed.dimension?_name {d : Dimension} (hd : d ∈ m.dimensions) :
    m.dimension? d.name = some d :=
  find?_key_eq_some (hr.nodup_dimensions hm) hd

theorem WellNamed.metric?_name {x : Metric} (hx : x ∈ m.metrics) : m.metric? x.name = some x :=
  find?_key_eq_some (hr.nodup_metrics hm) hx

/-- No dimension hides a metric. -/
theorem WellNamed.dimension?_eq_none {x : Metric} (hx : x ∈ m.metrics) :
    m.dimension? x.name = none := by
  rw [Model.dimension?, List.find?_eq_none]
  intro d hd heq
  have hapart := (List.nodup_append.1 (hr.members m hm)).2.2
  exact hapart _ (List.mem_map_of_mem hd) _ (List.mem_map_of_mem hx) (by simpa using heq)

end Names

/-! ## Offered members -/

/-- The members that can be asked for: those that are declared, temporal dimensions at the
granularities that apply to them, and every dimension under every aggregate. -/
def Offers (r : Repository) : Member → Prop
  | .dimension m d | .aggregate m d _ => m ∈ r.models ∧ d ∈ m.dimensions
  | .granularity m d g => m ∈ r.models ∧ d ∈ m.dimensions ∧ g.appliesTo d.type = true
  | .metric m x => m ∈ r.models ∧ x ∈ m.metrics

variable {r : Repository} {path : String}

private theorem appliesTo_of_derivedMember {m m' : Model} {name suffix : String} {d : Dimension}
    {g : Granularity} (h : derivedMember path m name suffix = .ok (.granularity m' d g)) :
    g.appliesTo d.type = true := by
  unfold derivedMember at h
  cases hd : m.dimension? name with
  | none => rw [hd] at h; cases h
  | some d' =>
    rw [hd] at h
    dsimp only at h
    split_ifs at h with hmark
    · cases ha : Aggregate.ofSuffix? suffix with
      | none => rw [ha] at h; cases h
      | some a => rw [ha] at h; cases h
    · obtain ⟨g', -, h⟩ := exists_ok_of_bind h
      split_ifs at h with happlies
      cases h
      exact happlies

/-- A granularity that a path names applies to the dimension before it. -/
private theorem appliesTo_of_member {m : Model} {d : Dimension} {g : Granularity}
    (h : r.member path = .ok (.granularity m d g)) : g.appliesTo d.type = true := by
  unfold Repository.member at h
  dsimp only at h
  split_ifs at h
  split at h
  · obtain ⟨found, -, h⟩ := exists_ok_of_bind h
    unfold plainMember at h
    split at h <;> cases h
  · obtain ⟨found, -, h⟩ := exists_ok_of_bind h
    exact appliesTo_of_derivedMember h
  · cases h

/-- Only members that are offered are named by a path. -/
theorem offers_of_member {member : Member} (h : r.member path = .ok member) : r.Offers member := by
  have hdeclares := declares_of_member h
  cases member with
  | dimension m d | aggregate m d a => exact hdeclares
  | granularity m d g => exact ⟨hdeclares.1, hdeclares.2, appliesTo_of_member h⟩
  | metric m x => exact hdeclares

/-! ## Finding a member by its path -/

/-- A member that is offered is named by its path. -/
theorem WellNamed.member_path (hr : r.WellNamed) {member : Member} (h : r.Offers member) :
    r.member member.path = .ok member := by
  have hdimension {m : Model} (hm : m ∈ r.models) {d : Dimension} (hd : d ∈ m.dimensions) :
      badName d.name = false :=
    hr.memberName m hm _ (List.mem_append_left _ (List.mem_map_of_mem hd))
  cases member with
  | dimension m d =>
    obtain ⟨hm, hd⟩ := h
    rw [Member.path, member_pair (hr.model?_name hm) (hr.modelName m hm) (hdimension hm hd), plainMember,
      hr.dimension?_name hm hd]
  | granularity m d g =>
    obtain ⟨hm, hd, happlies⟩ := h
    -- The tags and suffixes are finitely many: none holds a point, and only those of aggregates
    -- carry the mark.
    have htag : badName g.tag = false := by cases g <;> decide
    have hmark : Aggregate.suffixMark.toList.isPrefixOf g.tag.toList = false := by
      cases g <;> decide
    have hparse : Granularity.parse g.tag = .ok g := by cases g <;> rfl
    rw [Member.path, member_triple (hr.model?_name hm) (hr.modelName m hm) (hdimension hm hd) htag,
      derivedMember, hr.dimension?_name hm hd, hmark, hparse]
    exact if_pos happlies
  | metric m x =>
    obtain ⟨hm, hx⟩ := h
    have hname : badName x.name = false :=
      hr.memberName m hm _ (List.mem_append_right _ (List.mem_map_of_mem hx))
    rw [Member.path, member_pair (hr.model?_name hm) (hr.modelName m hm) hname, plainMember,
      hr.dimension?_eq_none hm hx, hr.metric?_name hm hx]
  | aggregate m d a =>
    obtain ⟨hm, hd⟩ := h
    have hsuffix : badName a.suffix = false := by cases a <;> decide
    have hmark : Aggregate.suffixMark.toList.isPrefixOf a.suffix.toList = true := by
      cases a <;> decide
    have hfind : Aggregate.ofSuffix? a.suffix = some a := by cases a <;> rfl
    rw [Member.path, member_triple (hr.model?_name hm) (hr.modelName m hm) (hdimension hm hd) hsuffix,
      derivedMember, hr.dimension?_name hm hd]
    dsimp only
    rw [hmark, hfind]
    rfl

/-- A path names a member exactly where the member is offered and has this path. -/
theorem WellNamed.member_eq_ok_iff (hr : r.WellNamed) {member : Member} :
    r.member path = .ok member ↔ r.Offers member ∧ member.path = path := by
  constructor
  · intro h
    exact ⟨offers_of_member h, path_of_member h⟩
  · rintro ⟨hoffers, rfl⟩
    exact hr.member_path hoffers

/-! ## Listed members -/

/-- The members of a dimension whose paths are listed: itself, and itself at the granularities that
apply to it. -/
def listedDimension (m : Model) (d : Dimension) : List Member :=
  .dimension m d :: (Granularity.all.filter (·.appliesTo d.type)).map (.granularity m d)

/-- The members of a model whose paths are listed. -/
def listedModel (m : Model) : List Member :=
  m.dimensions.flatMap (listedDimension m) ++ m.metrics.map (.metric m)

/-- The members whose paths are listed. -/
def listed (r : Repository) : List Member :=
  r.models.flatMap listedModel

/-- The listed paths are the paths of the listed members. -/
theorem memberPaths_eq (r : Repository) : r.memberPaths = r.listed.map Member.path := by
  have hdimension (m : Model) (d : Dimension) :
      (listedDimension m d).map Member.path = dimensionPaths m d := by
    rw [listedDimension, List.map_cons, List.map_map]
    rfl
  have hmodel (m : Model) : (listedModel m).map Member.path = modelPaths m := by
    simp [listedModel, modelPaths, List.map_flatMap, hdimension]
  simp [memberPaths, listed, List.map_flatMap, hmodel]

/-- A member is listed where it is offered and not under an aggregate. -/
theorem mem_listed_iff {member : Member} :
    member ∈ r.listed ↔ r.Offers member ∧ ∀ m d a, member ≠ .aggregate m d a := by
  have hall (g : Granularity) : g ∈ Granularity.all := by cases g <;> decide
  cases member <;> simp [listed, listedModel, listedDimension, Offers, hall]

private theorem nodup_listedDimension (m : Model) (d : Dimension) :
    (listedDimension m d).Nodup := by
  have hall : Granularity.all.Nodup := by decide
  refine List.nodup_cons.2 ⟨by simp, (hall.filter _).map fun g g' h => ?_⟩
  injection h

/-- A dimension is listed as it is and at every granularity that applies to its type. -/
private theorem mem_listedDimension_iff {m : Model} {d : Dimension} {member : Member} :
    member ∈ listedDimension m d ↔ member = .dimension m d ∨
      ∃ g : Granularity, g.appliesTo d.type = true ∧ member = .granularity m d g := by
  have hall (g : Granularity) : g ∈ Granularity.all := by cases g <;> decide
  simp [listedDimension, hall, @eq_comm _ member]

private theorem WellNamed.nodup_listedModel (hr : r.WellNamed) {m : Model} (hm : m ∈ r.models) :
    (listedModel m).Nodup := by
  have hdimensions : m.dimensions.Nodup := (hr.nodup_dimensions hm).of_map
  have hmetrics : m.metrics.Nodup := (hr.nodup_metrics hm).of_map
  rw [listedModel, List.nodup_append', List.nodup_flatMap]
  refine ⟨⟨fun d _ => nodup_listedDimension m d, hdimensions.imp ?_⟩,
    hmetrics.map fun x x' h => ?_, ?_⟩
  · -- A listed member shows the dimension that it was listed for.
    intro d d' hne member hmember hmember'
    rcases mem_listedDimension_iff.1 hmember with rfl | ⟨g, -, rfl⟩ <;>
      simp [mem_listedDimension_iff, hne] at hmember'
  · injection h
  · intro member hmember hmetric
    obtain ⟨d, -, hmember⟩ := List.mem_flatMap.1 hmember
    obtain ⟨x, -, rfl⟩ := List.mem_map.1 hmetric
    simp [mem_listedDimension_iff] at hmember

private theorem model_of_mem_listedModel {m : Model} {member : Member}
    (h : member ∈ listedModel m) : member.model = m := by
  rcases List.mem_append.1 h with h | h
  · obtain ⟨d, -, h⟩ := List.mem_flatMap.1 h
    rcases mem_listedDimension_iff.1 h with rfl | ⟨g, -, rfl⟩ <;> rfl
  · obtain ⟨x, -, rfl⟩ := List.mem_map.1 h
    rfl

/-- No member is listed twice. -/
theorem WellNamed.nodup_listed (hr : r.WellNamed) : r.listed.Nodup := by
  have hmodels : r.models.Nodup := hr.models.of_map
  refine List.nodup_flatMap.2 ⟨fun m hm => hr.nodup_listedModel hm, hmodels.imp ?_⟩
  intro m m' hne member hmember hmember'
  exact hne ((model_of_mem_listedModel hmember).symm.trans (model_of_mem_listedModel hmember'))

/-- A path is listed where an offered member that is not under an aggregate has it. -/
theorem mem_memberPaths_iff : path ∈ r.memberPaths ↔
    ∃ member, r.Offers member ∧ (∀ m d a, member ≠ .aggregate m d a) ∧ member.path = path := by
  simp [memberPaths_eq, mem_listed_iff, and_assoc]

/-- No path is listed twice, since a path leads back to the member that has it. -/
theorem WellNamed.nodup_memberPaths (hr : r.WellNamed) : r.memberPaths.Nodup := by
  rw [memberPaths_eq]
  refine hr.nodup_listed.map_on fun member hmember member' hmember' heq => ?_
  have hfind := hr.member_path (mem_listed_iff.1 hmember).1
  have hfind' := hr.member_path (mem_listed_iff.1 hmember').1
  rw [heq, hfind'] at hfind
  exact (Except.ok.inj hfind).symm

/-! ## Kinds -/

/-- Asking for a dimension is asking for a member and refusing a metric. -/
theorem dimension_eq_of_member {member : Member} (h : r.member path = .ok member) :
    r.dimension path =
      if member.isMetric then .error (.memberNotFound path .notDimension) else .ok member := by
  rw [Repository.dimension, h]
  cases member <;> rfl

/-- Asking for a metric is asking for a member and refusing a dimension. -/
theorem metric_eq_of_member {member : Member} (h : r.member path = .ok member) :
    r.metric path =
      if member.isMetric then .ok member else .error (.memberNotFound path .notMetric) := by
  rw [Repository.metric, h]
  cases member <;> rfl

/-- In a validated repository the paths that name a member are the listed ones and those of a
declared dimension under one of the aggregates. What a path names is the one offered member that has
this path. No path is listed twice, and what a path names is found either as a dimension or as a
metric. -/
theorem member_inverts_path {models : List Model} {joins : List Join}
    (hbuild : build models joins = .ok r) :
    (∀ path, (∃ member, r.member path = .ok member) ↔
      path ∈ r.memberPaths ∨ ∃ m ∈ r.models, ∃ d ∈ m.dimensions, ∃ a : Aggregate,
        path = joinPath [m.name, d.name, "adhoc_" ++ a.name]) ∧
    (∀ path member, r.member path = .ok member ↔ r.Offers member ∧ member.path = path) ∧
    r.memberPaths.Nodup ∧
    ∀ path, (∃ member, r.member path = .ok member) →
      Xor (∃ member, r.dimension path = .ok member) (∃ member, r.metric path = .ok member) := by
  have hr := wellNamed_of_build hbuild
  refine ⟨fun path => ?_, fun path member => hr.member_eq_ok_iff, hr.nodup_memberPaths,
    fun path => ?_⟩
  · simp only [hr.member_eq_ok_iff, mem_memberPaths_iff]
    constructor
    · rintro ⟨member, hoffers, rfl⟩
      by_cases haggregate : ∃ m d a, member = .aggregate m d a
      · obtain ⟨m, d, a, rfl⟩ := haggregate
        exact .inr ⟨m, hoffers.1, d, hoffers.2, a, rfl⟩
      · push Not at haggregate
        exact .inl ⟨member, hoffers, haggregate, rfl⟩
    · rintro (⟨member, hoffers, -, rfl⟩ | ⟨m, hm, d, hd, a, rfl⟩)
      · exact ⟨member, hoffers, rfl⟩
      · exact ⟨.aggregate m d a, ⟨hm, hd⟩, rfl⟩
  · rintro ⟨member, hmember⟩
    rw [dimension_eq_of_member hmember, metric_eq_of_member hmember]
    cases member.isMetric <;> simp [Xor]

/-- Visits with dimensions that are named like a granularity and like an aggregate. -/
private def visits : Model where
  name := "visits"
  source := .table "visits"
  dimensions := [
    { name := "id", type := .number, primaryKey := true },
    { name := "month", type := .date },
    { name := "adhoc_sum", type := .number }]
  metrics := [{ name := "count", definition := fun _ => [.sql "count(*)"] }]

/-- Names that look like suffixes are told from suffixes by their place: a month of `month` and a
sum of `adhoc_sum`. -/
theorem member_inverts_path_visits :
    ∃ r, build [visits] [] = .ok r ∧ "visits.month.month" ∈ r.memberPaths ∧
      "visits.adhoc_sum.month" ∉ r.memberPaths ∧ r.memberPaths.Nodup ∧
      (∃ member, r.member "visits.adhoc_sum.adhoc_sum" = .ok member) ∧
      Xor (∃ member, r.dimension "visits.adhoc_sum.adhoc_sum" = .ok member)
        (∃ member, r.metric "visits.adhoc_sum.adhoc_sum" = .ok member) ∧
      ∀ member, r.member "visits.month.month" = .ok member ↔
        r.Offers member ∧ member.path = "visits.month.month" := by
  have hbuild : build [visits] [] = .ok ⟨[visits], []⟩ := rfl
  obtain ⟨hiff, hpath, hnodup, hkind⟩ := member_inverts_path hbuild
  have hsum : ∃ member, Repository.member ⟨[visits], []⟩ "visits.adhoc_sum.adhoc_sum" = .ok member :=
    (hiff _).2 (.inr ⟨visits, by simp, visits.dimensions[2], by simp [visits], .sum, by decide⟩)
  exact ⟨_, hbuild, by decide, by decide, hnodup, hsum, hkind _ hsum, hpath _⟩

end Repository

end MetricLayer
