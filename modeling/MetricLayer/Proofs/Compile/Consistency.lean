import MetricLayer.Proofs.Compile.Layout
import MetricLayer.Proofs.Filter.Conjunct
import MetricLayer.Proofs.Filter.Payload
import MetricLayer.Proofs.Segment.Consistency

/-!
# Statements without internal errors

Over a validated repository no query fails for a reason that lies within the compile itself
(`CompileScope.statement_consistent`). Each of the errors in question is excluded by what an earlier
step has established:

- a checked payload has the shape that its operator takes, so a leaf finds its comparison, pattern
  or range;
- conditions that are evaluated before aggregation read dimensions only;
- the segments compute every metric that is requested or that a condition reads;
- the models of a segment are declared, and each has a key;
- queries are nested no deeper than the values that hold them.
-/

namespace MetricLayer

open Sql (Fragment Statement)

/-! ## Predicates -/

/-- A date that cannot be read is the fault of the request. -/
private theorem consistent_parseDate (text : String) (now : Calendar.DateTime) :
    Consistent (Calendar.parseDate text now) := by
  unfold Calendar.parseDate
  dsimp only
  split
  · exact .ok _
  · exact .error rfl

/-- Two dates that cannot be read are the fault of the request. -/
private theorem consistent_parseBounds (first last : String) (now : Calendar.DateTime) :
    Consistent (Calendar.parseBounds first last now) :=
  (consistent_parseDate first now).bind fun _ _ =>
    (consistent_parseDate last now).bind fun _ _ => .pure _

namespace PredicateScope

variable {scope : PredicateScope}

/-- An operator with a payload of its shape has a predicate, unless a date or a nested query has
no meaning. -/
theorem consistent_leaf {operator : Operator} {payload : Payload} (h : operator.Takes payload)
    (hnested : ∀ q, payload = .query q → Consistent (scope.nested q)) (member : String)
    (expr : Fragment) : Consistent (scope.leaf operator member payload expr) := by
  -- Each shape of payload leaves the operators of this shape; all others are refuted.
  cases h with
  | none hshape =>
    cases operator <;> first | exact .ok _ | cases hshape
  | values hshape =>
    cases operator <;> first | exact .ok _ | cases hshape
  | strings hshape =>
    cases operator <;> first | exact .ok _ | cases hshape
  | date hshape =>
    refine (consistent_parseDate _ _).bind fun range _ => ?_
    cases operator <;> first | exact .pure _ | cases hshape
  | phrase => exact (consistent_parseDate _ _).bind fun _ _ => .pure _
  | bounds => exact (consistent_parseBounds _ _ _).bind fun _ _ => .pure _
  | query =>
    refine (hnested _ rfl).bind fun statement _ => ?_
    exact .check rfl fun _ => .pure _

/-- Joining the parts of a group fails by a fault of the request only. -/
private theorem consistent_group (connective : Connective) (parts : List Fragment) :
    Consistent (group connective parts) := by
  unfold group
  split
  · exact .error rfl
  · exact .ok _
  · exact .ok _

variable {member : String → Result Fragment}

mutual

/-- A filter has a predicate unless one of its leaves has none for a reason of its own. -/
theorem consistent_predicate : (f : Filter) →
    (∀ l ∈ f.leaves, Consistent (member l.member)) →
    (∀ l ∈ f.leaves, ∀ q, l.check = .ok (.query q) → Consistent (scope.nested q)) →
    Consistent (scope.predicate member f)
  | .leaf l, hmember, hnested => by
    have hl : l ∈ (Filter.leaf l).leaves := List.mem_singleton_self l
    rw [predicate]
    refine l.consistent_check.bind fun payload hpayload => (hmember l hl).bind fun expr _ => ?_
    refine consistent_leaf (FilterLeaf.takes_of_check hpayload) (fun q hq => ?_) _ _
    exact hnested l hl q (hq ▸ hpayload)
  | .group connective children, hmember, hnested => by
    rw [predicate]
    exact (consistent_predicates children hmember hnested).bind fun _ _ => consistent_group _ _

/-- Predicates of several filters fail by a fault of the request only. -/
private theorem consistent_predicates : (fs : List Filter) →
    (∀ l ∈ Filter.leavesAll fs, Consistent (member l.member)) →
    (∀ l ∈ Filter.leavesAll fs, ∀ q, l.check = .ok (.query q) → Consistent (scope.nested q)) →
    Consistent (scope.predicates member fs)
  | [], _, _ => .ok _
  | child :: rest, hmember, hnested => by
    rw [Filter.leavesAll, List.forall_mem_append] at hmember hnested
    refine (consistent_predicate child hmember.1 hnested.1).bind fun _ _ => ?_
    exact (consistent_predicates rest hmember.2 hnested.2).bind fun _ _ => .pure _

end

end PredicateScope

/-! ## Conditions -/

namespace CompileScope

variable {scope : CompileScope} {predicates : PredicateScope}

/-- Every query that a leaf of the filter holds has a statement, or none for a good reason. -/
def NestedConsistent (predicates : PredicateScope) (f : Filter) : Prop :=
  ∀ l ∈ f.leaves, ∀ q, l.check = .ok (.query q) → Consistent (predicates.nested q)

/-- The condition of a conjunct fails by a fault of the request only. -/
private theorem consistent_condition {level : Level} {f : Filter} {c : Conjunct}
    (hc : scope.IsConjunct f c) (hnested : NestedConsistent predicates f)
    (hlevel : ∀ m ∈ c.members, Consistent (scope.resolver.filterSql scope level m)) :
    Consistent (scope.condition predicates level c) := by
  unfold condition
  rw [hc.filter]
  refine PredicateScope.consistent_predicate f (fun l hl => ?_) hnested
  refine (scope.repository.consistent_member l.member).bind fun m hm => ?_
  -- The member of a leaf is one of those that the conjunct reads.
  have hpath : l.member ∈ f.members := mem_distinct.2 (List.mem_map_of_mem hl)
  obtain ⟨m', hm', hfound⟩ := exists_mem_of_forall₂ hc.members.flip hpath
  obtain rfl := Except.ok.inj (hm.symm.trans hfound)
  exact hlevel m hm'

/-- Before aggregation every dimension has an expression. -/
private theorem consistent_filterSql_model {m : Member} (hm : scope.repository.IsMember m)
    (hdimension : m.isMetric = false) :
    Consistent (scope.resolver.filterSql scope .model m) := by
  unfold Resolver.filterSql
  rw [hdimension]
  exact (consistent_evaluate hm).bind fun _ _ => .pure _

/-- Writing a member at the segment level fails by a fault of the request only. -/
private theorem consistent_filterSql_segment {m : Member} (hm : scope.repository.IsMember m) :
    Consistent (scope.resolver.filterSql scope .segment m) :=
  scope.isConsistent_resolver.segmentSql hm

/-- On the root a metric is read from its segment. -/
private theorem consistent_rootSql {layout : RootLayout} {m : Member}
    (h : m.isMetric = true → ∃ segment, layout.segmentOf? m.label = some segment) :
    Consistent (Resolver.rootSql scope layout m : Result Fragment) := by
  unfold Resolver.rootSql
  split_ifs with hmetric
  · obtain ⟨segment, hsegment⟩ := h hmetric
    rw [hsegment]
    exact .pure _
  · exact .pure _

/-- A condition that is evaluated inside segments reads no metric. -/
private theorem isMetric_of_level {f : Filter} {c : Conjunct} (hc : scope.IsConjunct f c)
    (hlevel : c.level = .dimension) {m : Member} (hm : m ∈ c.members) : m.isMetric = false := by
  obtain ⟨path, hpath, hfound⟩ := exists_mem_of_forall₂ hc.members hm
  by_contra hmetric
  have hreads : scope.readsMetric f = true :=
    List.any_eq_true.2 ⟨path, hpath, by rw [hfound]; simpa using hmetric⟩
  rw [hc.level, if_pos hreads] at hlevel
  cases hlevel

/-! ## Models -/

/-- Declared members are evaluated, or the request is at fault. -/
theorem consistent_projectionsOf {members : List Member}
    (h : ∀ m ∈ members, scope.repository.IsMember m) : Consistent (scope.projectionsOf members) :=
  Consistent.bind (.mapM fun m hm => (consistent_evaluate (h m hm)).bind fun _ _ => .pure _)
    fun _ _ => .pure _

/-- A declared model has a statement, since it has a key that stands for it. -/
private theorem consistent_modelStatement {models : List Model} {joins : List Join}
    (hbuild : Repository.build models joins = .ok scope.repository) {name : String}
    (hname : scope.repository.Knows name) (projections : List Projection)
    (conditions : List Fragment) :
    Consistent (scope.modelStatement projections name conditions) := by
  obtain ⟨model, hmodel⟩ : ∃ model, scope.repository.model? name = some model := by
    obtain ⟨model, hmem, rfl⟩ := List.mem_map.1 hname
    exact Option.isSome_iff_exists.1 (List.find?_isSome.2 ⟨model, hmem, by simp⟩)
  obtain ⟨key, hkey⟩ := Repository.exists_key_of_build hbuild (List.mem_of_find?_eq_some hmodel)
  obtain ⟨d, hd⟩ := Repository.exists_dimension_of_key hbuild hmodel hkey
  unfold modelStatement
  rw [hmodel]
  dsimp only
  -- A model from which nothing is read shows its key.
  split_ifs
  · rw [hkey]
    dsimp only
    rw [hd]
    refine Consistent.bind (x := scope.projectionsOf [.dimension model d]) ?_ fun _ _ => .pure _
    exact consistent_projectionsOf (List.forall_mem_singleton.2 ⟨_, hd⟩)
  · exact .pure _

/-! ## Segments -/

section Expanded

variable {models : List Model} {joins : List Join}
  (hbuild : Repository.build models joins = .ok scope.repository)
  {query : Query} {e : Expansion} (he : scope.IsExpansion query e)
  (hnested : ∀ f, query.filter = some f → NestedConsistent predicates f)

include he hnested

omit hnested in
/-- A leaf of a conjunct is a leaf of the filter. -/
private theorem exists_conjunct_of_mem {c : Conjunct} (hc : c ∈ e.conjuncts) :
    ∃ f, scope.IsConjunct f c ∧ ∃ whole, query.filter = some whole ∧ ∀ l ∈ f.leaves,
      l ∈ whole.leaves := by
  obtain ⟨f, hf, hconjunct⟩ := exists_mem_of_forall₂ he.conjuncts hc
  cases hwhole : query.filter with
  | none => simp [hwhole] at hf
  | some whole =>
    rw [hwhole] at hf
    exact ⟨f, hconjunct, whole, rfl, fun l hl => Filter.mem_leaves_of_mem_conjuncts hf hl⟩

/-- A placed filter points at a conjunct and has a condition at its place. -/
private theorem consistent_addCondition {label : String} {group : SegmentGroup} {s : Segment}
    (hs : scope.IsSegment label group e.dimensions e.conjuncts s) {placed : PlacedFilter}
    (hplaced : placed ∈ s.filters) (found : SegmentConditions) :
    Consistent (scope.addCondition predicates e.conjuncts found placed) := by
  obtain ⟨x, hx, hat, -⟩ := hs.exists_innerConjunct hplaced
  obtain ⟨f, hf, whole, hwhole, hleaves⟩ := exists_conjunct_of_mem he (List.mem_of_getElem? hat)
  have hqueries : NestedConsistent predicates f := fun l hl => hnested whole hwhole l (hleaves l hl)
  have hlevel : x.1.level = .dimension := by simpa using (List.mem_filter.1 hx).2
  unfold addCondition
  rw [hat]
  dsimp only
  split
  · refine Consistent.bind (consistent_condition hf hqueries fun m hm => ?_) fun _ _ => .pure _
    exact consistent_filterSql_model (hf.isMember hm) (isMetric_of_level hf hlevel hm)
  · refine (consistent_projectionsOf fun m hm => hf.isMember hm).bind fun _ _ => ?_
    refine Consistent.bind (consistent_condition hf hqueries fun m hm => ?_) fun _ _ => .pure _
    exact consistent_filterSql_segment (hf.isMember hm)

include hbuild

/-- A segment has a statement, or the request is at fault. -/
private theorem consistent_segmentStatement {s : Segment} (hmem : s ∈ e.segments) :
    Consistent (scope.segmentStatement predicates e s) := by
  obtain ⟨label, group, -, hs⟩ := he.exists_group hmem
  have hvalid := Repository.valid_of_build hbuild
  have hmembers : ∀ m ∈ e.dimensions ++ s.metrics, scope.repository.IsMember m := by
    intro m hm
    exact (List.mem_append.1 hm).elim he.isMember_of_dimension (he.isMember_of_metric hmem)
  -- The joins are declared, and all models of the segment are.
  have hjoin : ∀ j ∈ s.joins, ∃ declared,
      scope.repository.declared j.toOrientedJoin = .ok declared ∧
      scope.repository.Knows j.child := by
    intro j hj
    have horiented : j.toOrientedJoin ∈ s.tree.orient s.anchor :=
      hs.joins ▸ List.mem_map_of_mem hj
    obtain ⟨declared, -, hok, hknows⟩ := hvalid.exists_declared_of_mem_orient hs.tree horiented
    exact ⟨declared, hok, hknows⟩
  have hanchor : scope.repository.Knows s.anchor :=
    Repository.knows_of_joinTree hbuild hs.tree _ hs.anchor_mem_required
  unfold segmentStatement
  refine (consistent_projectionsOf hmembers).bind fun read _ => ?_
  refine Consistent.bind (.foldlM (fun placed hplaced found =>
    consistent_addCondition he hnested hs hplaced found) _) fun found _ => ?_
  refine Consistent.bind (.mapM fun j hj => ?_) fun conditions _ => ?_
  · obtain ⟨declared, hok, -⟩ := hjoin j hj
    rw [hok]
    exact scope.isConsistent_resolver.joinCondition declared
  refine (consistent_modelStatement hbuild hanchor _ _).bind fun anchor _ => ?_
  refine Consistent.bind (.mapM fun x hx => ?_) fun clauses _ => ?_
  · obtain ⟨declared, -, hknows⟩ := hjoin x.1 (List.of_mem_zip hx).1
    exact (consistent_modelStatement hbuild hknows _ _).bind fun _ _ => .pure _
  refine Consistent.bind (.mapM fun m hm => ?_) fun select _ => ?_
  · exact (scope.isConsistent_resolver.segmentSql (hmembers m hm)).bind fun _ _ => .pure _
  refine Consistent.bind (.mapM fun m hm => ?_) fun groups _ => .pure _
  unfold Resolver.segmentGroup
  split_ifs
  · exact .pure _
  · exact (scope.isConsistent_resolver.segmentSql (he.isMember_of_dimension hm)).bind
      fun _ _ => .pure _

/-! ## The root -/

omit hnested hbuild in
/-- The segments compute every metric that is requested or that a condition reads. -/
private theorem exists_segmentOf? {m : Member} (hmetric : m.isMetric = true)
    (hm : m ∈ e.metrics ∨ ∃ c ∈ e.conjuncts, m ∈ c.members) :
    ∃ segment, e.rootLayout.segmentOf? m.label = some segment := by
  -- Some metric of the same path is placed, and so one of the same label.
  have hpath : m.path ∈ (e.segments.flatMap (·.metrics)).map Member.path := by
    rw [(he.perm_metrics.map Member.path).mem_iff]
    refine mem_keys_addAllNewBy (hm.imp_right ?_)
    rintro ⟨c, hc, hm⟩
    exact List.mem_filter.2 ⟨List.mem_flatMap.2 ⟨c, hc, hm⟩, hmetric⟩
  obtain ⟨m', hm', heq⟩ := List.mem_map.1 hpath
  obtain ⟨s, hs, hm'⟩ := List.mem_flatMap.1 hm'
  have hlabel : m'.label = m.label := congrArg labelOf heq
  cases hfound : e.rootLayout.segmentOf? m.label with
  | some segment => exact ⟨segment, rfl⟩
  | none =>
    rw [RootLayout.segmentOf?, List.lookup_eq_none_iff, Expansion.rootLayout_eq] at hfound
    have hplaced := hfound (m'.label, s.label) (List.mem_reverse.2 (List.mem_flatMap.2
      ⟨s, hs, List.mem_map_of_mem hm'⟩))
    simp [hlabel] at hplaced

omit hbuild in
/-- The root has a statement, or the request is at fault. -/
private theorem consistent_rootStatement (segments : List Statement) :
    Consistent (scope.rootStatement predicates e segments query) := by
  unfold rootStatement
  -- The columns, the conditions and the order are written one after the other.
  refine Consistent.bind (.mapM fun m hm => ?_) fun select _ => ?_
  · refine (consistent_rootSql fun hmetric => ?_).bind fun _ _ => .pure _
    refine exists_segmentOf? he hmetric ((List.mem_append.1 hm).elim (fun hm => ?_) .inl)
    rw [he.isMetric_of_dimension hm] at hmetric
    cases hmetric
  refine Consistent.bind (.mapM fun c hc => ?_) fun filters _ => ?_
  · have hmem := (List.mem_filter.1 hc).1
    obtain ⟨f, hf, whole, hwhole, hleaves⟩ := exists_conjunct_of_mem he hmem
    refine consistent_condition hf (fun l hl => hnested whole hwhole l (hleaves l hl)) ?_
    exact fun m hm => consistent_rootSql fun hmetric =>
      exists_segmentOf? he hmetric (.inr ⟨c, hmem, hm⟩)
  refine Consistent.bind (.mapM fun entry _ => ?_) fun order _ => .pure _
  unfold orderItem
  split
  · exact .ok _
  · exact .error rfl

end Expanded

/-! ## Queries -/

section Built

variable {models : List Model} {joins : List Join}
  (hbuild : Repository.build models joins = .ok scope.repository)

include hbuild

/-- A query has a statement, or the request is at fault. -/
private theorem consistent_assemble {nested : Query → Result Statement} {query : Query}
    (hnested : ∀ f, query.filter = some f →
      NestedConsistent ⟨scope.dialect, scope.now, nested⟩ f) :
    Consistent (scope.assemble nested query) := by
  refine (consistent_expand hbuild query).bind fun e hexpand => ?_
  have he := isExpansion_of_expand hexpand
  refine Consistent.bind (.mapM fun s hs => ?_) fun segments _ => ?_
  · exact consistent_segmentStatement hbuild he hnested hs
  · exact consistent_rootStatement he hnested segments

omit hbuild in
/-- The value of a leaf is nested no deeper than its query counts. -/
private theorem depth_le_of_mem_leaves {query : Query} {f : Filter} (hf : query.filter = some f)
    {l : FilterLeaf} (hl : l ∈ f.leaves) {v : Json} (hv : l.value = some v) :
    v.depth ≤ query.depth := by
  rw [Query.depth, hf]
  dsimp only
  generalize f.leaves = leaves at hl
  induction leaves with
  | nil => cases hl
  | cons first rest ih =>
    rw [List.foldr_cons]
    rcases List.mem_cons.1 hl with rfl | hl
    · rw [hv]
      exact le_max_left _ _
    · exact (ih hl).trans (le_max_right _ _)

/-- A query has a statement, or is itself to blame, if queries may be nested as deep as its values
are. -/
theorem consistent_statementWithin {depth : Nat} {query : Query} (h : query.depth ≤ depth) :
    Consistent (scope.statementWithin depth query) := by
  -- Induction on the depth: a nested query lies inside a value of the query that holds it.
  induction depth generalizing query with
  | zero =>
    refine consistent_assemble hbuild fun f hf l hl q hq => ?_
    obtain ⟨v, hv, hdecode⟩ := FilterLeaf.exists_value_of_check hq
    have hlt := Query.depth_lt_of_decode? hdecode
    have hle := depth_le_of_mem_leaves hf hl hv
    omega
  | succ depth ih =>
    refine consistent_assemble hbuild fun f hf l hl q hq => ih ?_
    obtain ⟨v, hv, hdecode⟩ := FilterLeaf.exists_value_of_check hq
    have hlt := Query.depth_lt_of_decode? hdecode
    have hle := depth_le_of_mem_leaves hf hl hv
    omega

end Built

/-! ## Positions -/

/-- Every position by which the parts of an expansion refer to each other is there. -/
structure InRange (scope : CompileScope) (e : Expansion) : Prop where
  conjuncts : ∀ s ∈ e.segments, ∀ p ∈ s.filters, p.conjunct < e.conjuncts.length
  joins : ∀ s ∈ e.segments, ∀ j ∈ s.joins, j.join < scope.repository.joins.length
  /-- The layout of the root names the segment of each statement. -/
  statements : ∀ predicates segments,
    e.segments.mapM (scope.segmentStatement predicates e) = .ok segments →
      ∀ k < segments.length, k < e.rootLayout.segments.length

/-- The indices in an expansion point at conjuncts and joins that are there. -/
private theorem inRange_of_expand {query : Query} {e : Expansion} (h : scope.expand query = .ok e) :
    scope.InRange e := by
  have he := isExpansion_of_expand h
  refine ⟨fun s hs p hp => ?_, fun s hs j hj => ?_, fun predicates segments hsegments k hk => ?_⟩
  · obtain ⟨label, group, -, hsegment⟩ := he.exists_group hs
    obtain ⟨c, hc, -⟩ := hsegment.exists_conjunct hp
    exact (List.getElem?_eq_some_iff.1 hc).1
  · obtain ⟨label, group, -, hsegment⟩ := he.exists_group hs
    obtain ⟨declared, hdeclared, -⟩ := hsegment.kinds j hj
    exact (List.getElem?_eq_some_iff.1 hdeclared).1
  · have hlength := (Agree.forall₂_of_mapM hsegments).length_eq
    rw [Expansion.segments_rootLayout, List.length_map]
    omega

/-- Over a validated repository no query fails for an internal reason: no path of joins is broken,
no model is unknown or without a key, no metric is missing on the root or met before aggregation,
no leaf meets a payload that its operator does not take. And every position that the compile uses
is there: those of conjuncts, of segments and of declared joins. -/
theorem statement_consistent {models : List Model} {joins : List Join}
    (hbuild : Repository.build models joins = .ok scope.repository) (query : Query) :
    Consistent (scope.statement query) ∧
    (∀ e, scope.expand query = .ok e → scope.InRange e) ∧
    ∀ requested t, scope.repository.graph.joinTree requested = .ok t →
      ∀ edge ∈ t.edges, edge.join < scope.repository.joins.length := by
  refine ⟨consistent_statementWithin hbuild (Nat.le_refl _), fun e he => inRange_of_expand he, ?_⟩
  intro requested t ht edge hedge
  obtain ⟨declared, hdeclared, -⟩ :=
    Repository.declared_of_joinTree ht edge hedge
  exact (List.getElem?_eq_some_iff.1 hdeclared).1

/-- Orders of a shop; orders are counted. -/
private def shops : CompileScope where
  repository := {
    models := [
      { name := "orders"
        source := .table "orders"
        dimensions := [{ name := "id", primaryKey := true }, { name := "made", type := .date }]
        metrics := [⟨"count", none, fun _ => [.sql "count(", .column "id", .sql ")"]⟩] },
      { name := "shop"
        source := .table "shop"
        dimensions := [{ name := "id", primaryKey := true }, { name := "name" }]
        metrics := [] }]
    joins := [
      { origin := "orders"
        target := "shop"
        cardinality := .manyToOne
        condition := fun s => [s.originDimension "id", .sql " = ", s.targetDimension "id"] }] }
  dialect := .ansi
  context := .null
  now := ⟨⟨2024, 1, 1⟩, .midnight⟩

/-- Shops among those of a nested query, with more than a number of orders that is not requested. -/
private def busyShops : Query where
  dimensions := ["shop.name"]
  filter := some (.group .all [
    .leaf ⟨.greater, "orders.count", some (.number (.int 10))⟩,
    .leaf ⟨.afterDate, "orders.made", some (.string "2023-05-01")⟩,
    .leaf ⟨.inQuery, "shop.name", some (.object [
      ("dimensions", .array [.string "shop.name"]),
      ("filters", .object [("member", .string "shop.name"), ("operator", .string "startsWith"),
        ("value", .array [.string "a", .string "b"])])])⟩])

/-- A query that meets each of the guarded steps has a statement. -/
theorem statement_consistent_busyShops : (shops.statement busyShops).toOption.isSome = true ∧
    Consistent (shops.statement busyShops) ∧
    ∀ e, shops.expand busyShops = .ok e → shops.InRange e := by
  have hbuild : Repository.build shops.repository.models shops.repository.joins =
      .ok shops.repository := rfl
  obtain ⟨hconsistent, hrange, -⟩ := statement_consistent hbuild busyShops
  exact ⟨by decide +kernel, hconsistent, hrange⟩

end CompileScope

end MetricLayer
