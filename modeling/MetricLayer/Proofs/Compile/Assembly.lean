import MetricLayer.Compile.Assembly
import MetricLayer.Proofs.Segment.Expand
import MetricLayer.Proofs.Sql.Scope

/-!
# What an assembled statement is made of

Where a query has a statement, so have all its parts. What each level of the statement holds is
said once here, for all that is proved about assembled statements:

- `CompileScope.IsModelStatement` — the statement of a model;
- `CompileScope.IsSegmentStatement` — the statement of a segment over the statements of its models;
- `CompileScope.IsRootStatement` — the root over the statements of the segments;
- `CompileScope.exists_parts_of_statement` — a query with a statement has all of these.
-/

namespace MetricLayer

open Sql (Fragment Statement Source JoinClause)

/-- The statement that a source stands for, where it is one. -/
def Sql.Source.statement? : Source → Option Statement
  | .statement inner => some inner
  | .table .. | .raw .. => none

/-- The statements that a statement reads and joins, in order. -/
def Sql.Statement.inputs (st : Statement) : List Statement :=
  (st.source.toList ++ st.joins.map (·.source)).filterMap Source.statement?

namespace CompileScope

variable {scope : CompileScope} {predicates : PredicateScope}

/-! ## Models -/

/-- The key column of a model, which stands for the model where nothing is read from it. -/
def IsKeyColumn (scope : CompileScope) (name : String) (p : Projection) : Prop :=
  ∃ model key m columns, scope.repository.model? name = some model ∧
    model.primaryKey? = some key ∧ scope.repository.member (joinPath [name, key.name]) = .ok m ∧
    scope.projectionsOf [m] = .ok columns ∧ p ∈ columns

/-- The statement of a model, given the columns that are read from all models. -/
structure IsModelStatement (scope : CompileScope) (projections : List Projection) (name : String)
    (conditions : List Fragment) (st : Statement) : Prop where
  label : st.label = some name
  source : ∃ model, scope.repository.model? name = some model ∧
    st.source = some (modelSource model)
  joins : st.joins = []
  filters : st.filters = conditions
  groupBy : st.groupBy = []
  orderBy : st.orderBy = []
  /-- The columns that are read from the model, or its key. -/
  select : ∃ columns : List Projection, st.select = columns.map (·.selectItem) ∧
    (∀ p ∈ projections, p.model = name → p ∈ columns) ∧
    ∀ p ∈ columns, (p ∈ projections ∧ p.model = name) ∨ scope.IsKeyColumn name p

/-- The statement that is built for a model is one of the model. -/
theorem isModelStatement_of_modelStatement {projections : List Projection} {name : String}
    {conditions : List Fragment} {st : Statement}
    (h : scope.modelStatement projections name conditions = .ok st) :
    scope.IsModelStatement projections name conditions st := by
  unfold modelStatement at h
  cases hmodel : scope.repository.model? name with
  | none => rw [hmodel] at h; cases h
  | some model =>
    rw [hmodel] at h
    by_cases hempty : (projections.filter (·.model = name)).isEmpty
    · -- Nothing is read from the model, so its key stands for it.
      simp only [hempty, if_true] at h
      rw [List.isEmpty_iff, List.filter_eq_nil_iff] at hempty
      cases hkey : model.primaryKey? with
      | none => rw [hkey] at h; cases h
      | some key =>
        rw [hkey] at h
        obtain ⟨m, hm, h⟩ := exists_ok_of_bind h
        obtain ⟨columns, hcolumns, h⟩ := exists_ok_of_bind h
        obtain rfl := Except.ok.inj h
        refine ⟨rfl, ⟨model, hmodel, rfl⟩, rfl, rfl, rfl, rfl, columns, rfl, ?_, ?_⟩
        · intro p hp hname
          exact absurd hname (by simpa using hempty p hp)
        · intro p hp
          exact .inr ⟨model, key, m, columns, hmodel, hkey, hm, hcolumns, hp⟩
    · simp only [hempty] at h
      obtain rfl := Except.ok.inj h
      refine ⟨rfl, ⟨model, hmodel, rfl⟩, rfl, rfl, rfl, rfl, _, rfl, ?_, ?_⟩
      · intro p hp hname
        simp [hp, hname]
      · intro p hp
        exact .inl (by simpa using hp)

/-- The statement of a model reads no other statement. -/
theorem IsModelStatement.inputs_eq_nil {projections : List Projection} {name : String}
    {conditions : List Fragment} {st : Statement}
    (h : scope.IsModelStatement projections name conditions st) : st.inputs = [] := by
  obtain ⟨model, -, hsource⟩ := h.source
  rw [Statement.inputs, hsource, h.joins]
  unfold modelSource
  cases model.source <;> rfl

/-! ## Segments -/

/-- The conditions that are pushed down to a model. -/
def SegmentConditions.pushedTo (found : SegmentConditions) (name : String) : List Fragment :=
  (found.pushed.filter (·.1 = name)).map (·.2)

/-- The columns that a segment reads from its models. -/
def readColumns (found : SegmentConditions) (conditions : List (Fragment × List Projection)) :
    List Projection :=
  mergeProjections found.projections (conditions.flatMap (·.2))

/-- A join of a segment with its condition and the statement that it joins. -/
def IsJoinClause (scope : CompileScope) (found : SegmentConditions)
    (conditions : List (Fragment × List Projection)) (clause : JoinClause) (j : SegmentJoin) :
    Prop :=
  ∃ declared condition model, scope.repository.join? j.join = some declared ∧
    scope.resolver.joinCondition scope declared = .ok condition ∧ condition ∈ conditions ∧
    scope.IsModelStatement (readColumns found conditions) j.child (found.pushedTo j.child) model ∧
    clause = ⟨j.kind, .statement model, some condition.1⟩

/-- The statement of a segment, given the conditions of its conjuncts and of its joins. -/
structure IsSegmentStatement (scope : CompileScope) (predicates : PredicateScope) (e : Expansion)
    (s : Segment) (found : SegmentConditions) (conditions : List (Fragment × List Projection))
    (st : Statement) : Prop where
  label : st.label = some s.label
  /-- The conditions are found one after the other, beginning with what the members read. -/
  collected : ∃ read, scope.projectionsOf (e.dimensions ++ s.metrics) = .ok read ∧
    s.filters.foldlM (scope.addCondition predicates e.conjuncts) ⟨mergeProjections [] read, [], []⟩ =
      .ok found
  joined : List.Forall₂ (fun j c => ∃ declared, scope.repository.join? j.join = some declared ∧
    scope.resolver.joinCondition scope declared = .ok c) s.joins conditions
  source : ∃ anchor, scope.IsModelStatement (readColumns found conditions) s.anchor
    (found.pushedTo s.anchor) anchor ∧ st.source = some (.statement anchor)
  joins : List.Forall₂ (scope.IsJoinClause found conditions) st.joins s.joins
  select : List.Forall₂ (fun m item => scope.resolver.segmentItem scope m = .ok item)
    (e.dimensions ++ s.metrics) st.select
  filters : st.filters = found.own
  groupBy : ∀ f ∈ st.groupBy, ∃ m ∈ e.dimensions,
    scope.resolver.segmentGroup scope m = .ok (some f)
  orderBy : st.orderBy = []

/-- What is built from two lists side by side goes along with the first of them. -/
private theorem forall₂_of_zip {α β γ : Type} {P : α → β → Prop} {Q : α × β → γ → Prop}
    {as : List α} {bs : List β} {cs : List γ} (h : List.Forall₂ P as bs)
    (h' : List.Forall₂ Q (as.zip bs) cs) :
    List.Forall₂ (fun c a => ∃ b, P a b ∧ Q (a, b) c) cs as := by
  induction h generalizing cs with
  | nil =>
    obtain rfl := List.forall₂_nil_left_iff.1 h'
    exact .nil
  | cons hab _ ih =>
    obtain _ | ⟨hc, hrest⟩ := h'
    exact .cons ⟨_, hab, hc⟩ (ih hrest)

/-- The statement that is built for a segment is one of the segment. -/
theorem exists_isSegmentStatement {e : Expansion} {s : Segment} {st : Statement}
    (h : scope.segmentStatement predicates e s = .ok st) :
    ∃ found conditions, scope.IsSegmentStatement predicates e s found conditions st := by
  unfold segmentStatement at h
  obtain ⟨read, hread, h⟩ := exists_ok_of_bind h
  obtain ⟨found, hfound, h⟩ := exists_ok_of_bind h
  obtain ⟨conditions, hconditions, h⟩ := exists_ok_of_bind h
  obtain ⟨anchor, hanchor, h⟩ := exists_ok_of_bind h
  obtain ⟨joins, hjoins, h⟩ := exists_ok_of_bind h
  obtain ⟨select, hselect, h⟩ := exists_ok_of_bind h
  obtain ⟨groups, hgroups, h⟩ := exists_ok_of_bind h
  obtain rfl := Except.ok.inj h
  refine ⟨found, conditions, rfl, ⟨read, hread, hfound⟩, ?_,
    ⟨anchor, isModelStatement_of_modelStatement hanchor, rfl⟩, ?_, Agree.forall₂_of_mapM hselect,
    rfl, ?_, rfl⟩
  · refine (Agree.forall₂_of_mapM hconditions).imp fun j c hc => ?_
    obtain ⟨declared, hdeclared, hc⟩ := exists_ok_of_bind hc
    exact ⟨declared, Repository.join?_of_declared hdeclared, hc⟩
  · -- A join is written from the step and the condition that was compiled for it.
    have hmem := (List.forall₂_and_left _ _).2
      ⟨fun c (hc : c ∈ conditions) => hc, (Agree.forall₂_of_mapM hconditions).flip⟩
    refine (forall₂_of_zip hmem.flip (Agree.forall₂_of_mapM hjoins)).imp fun clause j hclause => ?_
    obtain ⟨condition, ⟨hcondition, hj⟩, hclause⟩ := hclause
    obtain ⟨declared, hdeclared, hj⟩ := exists_ok_of_bind hj
    obtain ⟨model, hmodel, hclause⟩ := exists_ok_of_bind hclause
    obtain rfl := Except.ok.inj hclause
    exact ⟨declared, condition, model, Repository.join?_of_declared hdeclared, hj, hcondition,
      isModelStatement_of_modelStatement hmodel, rfl⟩
  · intro f hf
    obtain ⟨group, hgroup, hsome⟩ := List.mem_filterMap.1 hf
    obtain rfl : group = some f := hsome
    exact Agree.exists_of_mem_mapM hgroups hgroup

/-- The statements of a segment's models are those of its anchor and of its joins, in order. -/
theorem IsSegmentStatement.forall₂_inputs {e : Expansion} {s : Segment} {found : SegmentConditions}
    {conditions : List (Fragment × List Projection)} {st : Statement}
    (h : scope.IsSegmentStatement predicates e s found conditions st) :
    List.Forall₂ (fun name model => scope.IsModelStatement (readColumns found conditions) name
      (found.pushedTo name) model) (s.anchor :: s.joins.map (·.child)) st.inputs := by
  obtain ⟨anchor, hanchor, hsource⟩ := h.source
  rw [Statement.inputs, hsource]
  refine .cons hanchor ?_
  rw [List.forall₂_map_left_iff]
  have hjoins := h.joins
  generalize st.joins = clauses, s.joins = joins at hjoins
  induction hjoins with
  | nil => exact .nil
  | cons hclause _ ih =>
    obtain ⟨declared, condition, model, -, -, -, hmodel, rfl⟩ := hclause
    exact .cons hmodel ih

/-- A segment reads nothing but the statements of its models. -/
theorem IsSegmentStatement.sources_eq {e : Expansion} {s : Segment} {found : SegmentConditions}
    {conditions : List (Fragment × List Projection)} {st : Statement}
    (h : scope.IsSegmentStatement predicates e s found conditions st) :
    st.sources = st.inputs.map .statement := by
  obtain ⟨anchor, -, hsource⟩ := h.source
  have hjoins : ∀ source ∈ st.joins.map (·.source), ∃ inner, source = .statement inner := by
    intro source hmem
    obtain ⟨clause, hclause, rfl⟩ := List.mem_map.1 hmem
    obtain ⟨j, -, declared, condition, model, -, -, -, -, rfl⟩ :=
      exists_mem_of_forall₂ h.joins.flip hclause
    exact ⟨model, rfl⟩
  rw [Statement.inputs, Statement.sources, hsource]
  generalize st.joins.map (·.source) = sources at hjoins
  -- All sources are statements, so none is lost where the statements are collected.
  have hrest : sources = (sources.filterMap Source.statement?).map .statement := by
    induction sources with
    | nil => rfl
    | cons source rest ih =>
      obtain ⟨⟨inner, rfl⟩, hrest⟩ := List.forall_mem_cons.1 hjoins
      exact congrArg _ (ih hrest)
  exact congrArg (Source.statement anchor :: ·) hrest

/-- The statements of a segment's models have the names of the models. -/
theorem IsSegmentStatement.labels_inputs {e : Expansion} {s : Segment} {found : SegmentConditions}
    {conditions : List (Fragment × List Projection)} {st : Statement}
    (h : scope.IsSegmentStatement predicates e s found conditions st) :
    st.inputs.map (·.label) = (s.anchor :: s.joins.map (·.child)).map some :=
  map_eq_map_of_forall₂ (h.forall₂_inputs.flip.imp fun _ _ hmodel => hmodel.label)

/-! ## The root -/

/-- The root of an expanded query over the statements of its segments. -/
structure IsRootStatement (scope : CompileScope) (predicates : PredicateScope) (e : Expansion)
    (segments : List Statement) (st : Statement) : Prop where
  label : st.label = none
  select : List.Forall₂ (fun m item => (Resolver.rootItem scope e.rootLayout m :
    Result Sql.SelectItem) = .ok item) (e.dimensions ++ e.metrics) st.select
  source : st.source = segments.head?.map .statement
  joins : st.joins = scope.rootJoins e.dimensions (e.rootLayout.segments.take 1)
    ((e.rootLayout.segments.zip segments).drop 1)
  filters : List.Forall₂ (fun c f => scope.condition predicates (.root e.rootLayout) c = .ok f)
    (e.conjuncts.filter (·.level = .root)) st.filters
  groupBy : st.groupBy = []
  /-- The rows are ordered by columns of the result. -/
  orderBy : ∀ o ∈ st.orderBy, ∃ m ∈ e.dimensions ++ e.metrics, o.expr = .ofText (scope.quote m.label)

/-- The statement that is built for the root is one of the root. -/
theorem isRootStatement_of_rootStatement {e : Expansion} {segments : List Statement}
    {query : Query} {st : Statement}
    (h : scope.rootStatement predicates e segments query = .ok st) :
    scope.IsRootStatement predicates e segments st := by
  unfold rootStatement at h
  obtain ⟨select, hselect, h⟩ := exists_ok_of_bind h
  obtain ⟨filters, hfilters, h⟩ := exists_ok_of_bind h
  obtain ⟨order, horder, h⟩ := exists_ok_of_bind h
  obtain rfl := Except.ok.inj h
  refine ⟨rfl, Agree.forall₂_of_mapM hselect, rfl, rfl, Agree.forall₂_of_mapM hfilters, rfl, ?_⟩
  intro o ho
  obtain ⟨entry, -, hentry⟩ := Agree.exists_of_mem_mapM horder ho
  unfold orderItem at hentry
  cases hm : e.requested? entry.path with
  | none => rw [hm] at hentry; cases hentry
  | some m =>
    rw [hm] at hentry
    obtain rfl := Except.ok.inj hentry
    exact ⟨m, List.mem_of_find?_eq_some hm, rfl⟩

/-- The statements that the root joins are those that it is given. -/
private theorem sources_rootJoins (scope : CompileScope) (dimensions : List Member)
    (before : List String) (named : List (String × Statement)) :
    (scope.rootJoins dimensions before named).map (·.source) =
      named.map fun x => .statement x.2 := by
  induction named generalizing before with
  | nil => rfl
  | cons x rest ih =>
    obtain ⟨name, s⟩ := x
    rw [rootJoins, List.map_cons, List.map_cons, ih]
    split_ifs <;> rfl

end CompileScope

/-- Placed metrics are noted one by one, the latest first. -/
private theorem RootLayout.foldl_place (placed : List (String × String)) (l : RootLayout) :
    placed.foldl (fun l x => l.place x.1 x.2) l = ⟨l.segments, placed.reverse ++ l.metrics⟩ := by
  induction placed generalizing l with
  | nil => rfl
  | cons x rest ih =>
    rw [List.foldl_cons, ih]
    simp [RootLayout.place]

namespace Expansion

/-- The layout of the root names the segments in order, and the segment of every metric of theirs. -/
theorem rootLayout_eq (e : Expansion) : e.rootLayout = ⟨e.segments.map (·.label),
    (e.segments.flatMap fun s => s.metrics.map fun m => (m.label, s.label)).reverse⟩ := by
  have h := RootLayout.foldl_place
    (e.segments.flatMap fun s => s.metrics.map fun m => (m.label, s.label))
    (.ofSegments (e.segments.map (·.label)))
  simp only [List.foldl_flatMap, List.foldl_map, RootLayout.ofSegments, List.append_nil] at h
  exact h

/-- The layout of the root names the segments in their order. -/
theorem segments_rootLayout (e : Expansion) :
    e.rootLayout.segments = e.segments.map (·.label) := by
  rw [rootLayout_eq]

/-- The layout of the root finds a metric in a segment that computes it. -/
theorem exists_metric_of_segmentOf? (e : Expansion) {label segment : String}
    (h : e.rootLayout.segmentOf? label = some segment) :
    ∃ s ∈ e.segments, s.label = segment ∧ ∃ m ∈ s.metrics, m.label = label := by
  obtain ⟨before, after, hmetrics, -⟩ := List.lookup_eq_some_iff.1 h
  have hplaced : (label, segment) ∈ e.rootLayout.metrics := by simp [hmetrics]
  rw [rootLayout_eq, List.mem_reverse] at hplaced
  obtain ⟨s, hs, hmetric⟩ := List.mem_flatMap.1 hplaced
  obtain ⟨m, hm, heq⟩ := List.mem_map.1 hmetric
  obtain ⟨hlabel, hsegment⟩ := Prod.mk.inj heq
  exact ⟨s, hs, hsegment, m, hm, hlabel⟩

end Expansion

namespace CompileScope

variable {scope : CompileScope} {predicates : PredicateScope}

/-- The root reads nothing but the statements of all segments, in order. -/
theorem IsRootStatement.sources_eq {e : Expansion} {segments : List Statement} {st : Statement}
    (h : scope.IsRootStatement predicates e segments st)
    (hlength : e.segments.length = segments.length) :
    st.sources = segments.map .statement := by
  rw [Statement.sources, h.source, h.joins, sources_rootJoins, Expansion.segments_rootLayout]
  cases segments with
  | nil => simp
  | cons first rest =>
    obtain ⟨s, ss, hsegments⟩ : ∃ s ss, e.segments = s :: ss :=
      List.exists_cons_of_length_eq_add_one hlength
    have hrest : ss.length = rest.length := by simpa [hsegments] using hlength
    -- The labels are as many as the statements, so no statement falls off the list of pairs.
    have hzip : ((ss.map (·.label)).zip rest).map Prod.snd = rest :=
      List.map_snd_zip (by simp [hrest])
    have hstatements : ((ss.map (·.label)).zip rest).map (fun x => Source.statement x.2) =
        rest.map .statement := by
      conv_rhs => rw [← hzip, List.map_map]
      rfl
    simp [hsegments, hstatements]

/-- The statements that the root reads are those of the segments. -/
theorem IsRootStatement.inputs_eq {e : Expansion} {segments : List Statement} {st : Statement}
    (h : scope.IsRootStatement predicates e segments st)
    (hlength : e.segments.length = segments.length) : st.inputs = segments := by
  change st.sources.filterMap Source.statement? = segments
  rw [h.sources_eq hlength, List.filterMap_map]
  exact List.filterMap_some

/-! ## Queries -/

/-- The statement of a query that is nested in another one, given how deep its own filter values may
be nested. -/
def nestedWithin (scope : CompileScope) : (depth : Nat) → Query → Result Statement
  | 0, _ => .error (.invalidQuery .nestedUnavailable)
  | depth + 1, query => scope.statementWithin depth query

/-- What the conditions of a query depend on. -/
def predicatesOf (scope : CompileScope) (query : Query) : PredicateScope :=
  ⟨scope.dialect, scope.now, scope.nestedWithin query.depth⟩

/-- At any depth of nesting, a query with a statement has an expansion and a statement for each of
its segments, over which its own statement is the root. -/
theorem exists_parts_of_statementWithin {depth : Nat} {query : Query} {st : Statement}
    (h : scope.statementWithin depth query = .ok st) :
    ∃ predicates e segments, predicates = ⟨scope.dialect, scope.now, scope.nestedWithin depth⟩ ∧
      scope.expand query = .ok e ∧
      List.Forall₂ (fun s inner => ∃ found conditions, scope.IsSegmentStatement predicates e s
        found conditions inner) e.segments segments ∧
      scope.IsRootStatement predicates e segments st := by
  have hassemble : scope.assemble (scope.nestedWithin depth) query = .ok st := by
    cases depth with
    | zero => exact h
    | succ depth => exact h
  obtain ⟨e, he, h⟩ := exists_ok_of_bind hassemble
  obtain ⟨segments, hsegments, h⟩ := exists_ok_of_bind h
  refine ⟨_, e, segments, rfl, he, ?_, isRootStatement_of_rootStatement h⟩
  exact (Agree.forall₂_of_mapM hsegments).imp fun s inner hinner => exists_isSegmentStatement hinner

/-- An assembled statement has its parts: an expansion, a statement for each segment and the root.
-/
theorem exists_parts_of_statement {query : Query} {st : Statement}
    (h : scope.statement query = .ok st) : ∃ e segments, scope.expand query = .ok e ∧
      List.Forall₂ (fun s inner => ∃ found conditions, scope.IsSegmentStatement
        (scope.predicatesOf query) e s found conditions inner) e.segments segments ∧
      scope.IsRootStatement (scope.predicatesOf query) e segments st := by
  obtain ⟨_, e, segments, rfl, hparts⟩ := exists_parts_of_statementWithin h
  exact ⟨e, segments, hparts⟩

end CompileScope

end MetricLayer
