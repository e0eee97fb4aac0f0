import MetricLayer.Introspection
import MetricLayer.Proofs.Compile.Assembly
import MetricLayer.Proofs.Segment.Partition

/-!
# Described columns

The columns of a result are found twice: when a query is compiled, and when its columns are
described. Both ways lead to the same names.

- `Introspection.names_describe` — describing a column adds its name unless it is there;
- `Repository.exists_introspect` — where every requested path names a member, the described columns
  have the labels of these paths;
- `CompileScope.IsColumn` — a selected expression of the root that shows the member of a path;
- `CompileScope.introspect_of_statement` — a compiled query selects its requested members, each once
  and in order, and exactly their columns are described.
-/

namespace MetricLayer

open Sql (SelectItem Statement)

/-! ## Descriptions -/

namespace Introspection

variable {columns : Introspection} {name : String} {info : ColumnInfo}

/-- A described column has its name in the table, once. -/
theorem names_describe (columns : Introspection) (name : String) (info : ColumnInfo) :
    (columns.describe name info).names = addNewBy id columns.names name := by
  induction columns with
  | nil => rfl
  | cons column rest ih =>
    obtain ⟨n, i⟩ := column
    rw [describe]
    split_ifs with hn
    · subst hn
      exact (if_pos (by simp [names])).symm
    · exact (congrArg (n :: ·) ih).trans (addNewBy_cons_of_ne hn).symm

/-- A described column is new, or it was there. -/
theorem mem_describe {column : String × ColumnInfo} (h : column ∈ columns.describe name info) :
    column = (name, info) ∨ column ∈ columns := by
  induction columns with
  | nil => exact .inl (List.mem_singleton.1 h)
  | cons first rest ih =>
    rw [describe] at h
    split_ifs at h
    · exact (List.mem_cons.1 h).imp_right (List.mem_cons_of_mem _)
    · rcases List.mem_cons.1 h with rfl | h
      · exact .inr List.mem_cons_self
      · exact (ih h).imp_right (List.mem_cons_of_mem _)

/-- The columns of members have the labels of the members, each once. -/
theorem names_foldl_describe (members : List Member) (columns : Introspection) :
    (members.foldl (fun columns m => columns.describe m.label m.columnInfo) columns).names =
      addAllNew columns.names (members.map Member.label) := by
  induction members generalizing columns with
  | nil => rfl
  | cons m rest ih =>
    rw [List.foldl_cons, ih, names_describe]
    rfl

/-- A column of the table was there or is that of a described member. -/
theorem exists_of_mem_foldl_describe {members : List Member} {column : String × ColumnInfo}
    (h : column ∈ members.foldl (fun columns m => columns.describe m.label m.columnInfo) columns) :
    (∃ m ∈ members, column = (m.label, m.columnInfo)) ∨ column ∈ columns := by
  induction members generalizing columns with
  | nil => exact .inr h
  | cons m rest ih =>
    rcases ih h with ⟨m', hm', rfl⟩ | hcolumn
    · exact .inl ⟨m', List.mem_cons_of_mem _ hm', rfl⟩
    · exact (mem_describe hcolumn).imp_left fun heq => ⟨m, List.mem_cons_self, heq⟩

end Introspection

/-- Where every requested path names a member, the columns are described under the labels of the
paths, and each description is that of a requested member with this label. -/
theorem Repository.exists_introspect {r : Repository} {query : Query}
    (h : ∀ path ∈ query.dimensions ++ query.metrics, ∃ m, r.member path = .ok m) :
    ∃ columns, r.introspect query = .ok columns ∧
      columns.names = distinct ((query.dimensions ++ query.metrics).map labelOf) ∧
      ∀ column ∈ columns, ∃ path ∈ query.dimensions ++ query.metrics, ∃ m,
        r.member path = .ok m ∧ column = (labelOf path, m.columnInfo) := by
  rw [introspect]
  rcases Agree.mapM_ok_or_error r.member (query.dimensions ++ query.metrics) with
    ⟨members, hmembers⟩ | ⟨before, path, after, e, hpaths, -, herror, -⟩
  · have hforall := Agree.forall₂_of_mapM hmembers
    have hlabels : members.map Member.label =
        (query.dimensions ++ query.metrics).map labelOf :=
      map_eq_map_of_forall₂ (hforall.flip.imp fun m path hm => congrArg labelOf (path_of_member hm))
    rw [hmembers]
    refine ⟨_, rfl, ?_, fun column hcolumn => ?_⟩
    · rw [Introspection.names_foldl_describe, hlabels]
      rfl
    · rcases Introspection.exists_of_mem_foldl_describe hcolumn with ⟨m, hm, rfl⟩ | hnone
      · obtain ⟨path, hpath, hfound⟩ := exists_mem_of_forall₂ hforall hm
        exact ⟨path, hpath, m, hfound, by rw [Member.label, path_of_member hfound]⟩
      · cases hnone
  · -- The path that names no member is among the requested ones.
    obtain ⟨m, hm⟩ := h path (by simp [hpaths])
    rw [hm] at herror
    cases herror

/-! ## Compiled columns -/

namespace CompileScope

variable {scope : CompileScope} {query : Query}

/-- A selected expression of the root shows the member that is found for a path, under the label of
the path. -/
structure IsColumn (scope : CompileScope) (e : Expansion) (find : String → Result Member)
    (path : String) (item : SelectItem) : Prop where
  label : item.label = some (labelOf path)
  shows : ∃ m, find path = .ok m ∧
    (Resolver.rootItem scope e.rootLayout m : Result SelectItem) = .ok item

/-- A selected member has its label. -/
theorem label_of_rootItem {layout : RootLayout} {m : Member} {item : SelectItem}
    (h : (Resolver.rootItem scope layout m : Result SelectItem) = .ok item) :
    item.label = some m.label := by
  obtain ⟨sql, -, h⟩ := exists_ok_of_bind h
  obtain rfl := Except.ok.inj h
  rfl

/-- The expressions for requested members are columns of their paths. -/
private theorem forall₂_isColumn {e : Expansion} {find : String → Result Member}
    (hfind : ∀ path m, find path = .ok m → scope.repository.member path = .ok m)
    {paths : List String} {members : List Member} {items : List SelectItem}
    (hmembers : List.Forall₂ (fun path m => find path = .ok m) paths members)
    (hitems : List.Forall₂ (fun m item => (Resolver.rootItem scope e.rootLayout m :
      Result SelectItem) = .ok item) members items) :
    List.Forall₂ (scope.IsColumn e find) paths items := by
  induction hmembers generalizing items with
  | nil =>
    obtain rfl := List.forall₂_nil_left_iff.1 hitems
    exact .nil
  | cons hm _ ih =>
    obtain _ | ⟨hitem, hrest⟩ := hitems
    refine .cons ⟨?_, _, hm, hitem⟩ (ih hrest)
    rw [label_of_rootItem hitem, Member.label, Repository.path_of_member (hfind _ _ hm)]

/-- The labels of columns are those of their paths. -/
private theorem map_label_of_forall₂ {e : Expansion} {find : String → Result Member}
    {paths : List String} {items : List SelectItem}
    (h : List.Forall₂ (scope.IsColumn e find) paths items) :
    items.map (·.label) = paths.map fun path => some (labelOf path) :=
  map_eq_map_of_forall₂ (h.flip.imp fun _ _ hcolumn => hcolumn.label)

/-- A hidden metric is not requested, neither as a metric nor as a dimension. -/
theorem path_not_mem_of_hidden {e : Expansion} (h : scope.expand query = .ok e) {m : Member}
    (hm : m ∈ e.hidden) : m.path ∉ query.dimensions ∧ m.path ∉ query.metrics := by
  obtain ⟨hmetric, ⟨-, -, path, -, hmember⟩, hpath⟩ := (mem_hidden_iff h).1 hm
  refine ⟨?_, hpath⟩
  intro hdimension
  -- A path names one member, which is not a dimension and a metric at once.
  have he := isExpansion_of_expand h
  obtain ⟨d, hd, hfound⟩ :=
    exists_mem_of_forall₂ he.forall₂_dimensions.flip (mem_distinct.2 hdimension)
  have hsame := Repository.member_of_dimension hfound
  rw [Repository.path_of_member hmember, hmember] at hsame
  obtain rfl := Except.ok.inj hsame
  rw [he.isMetric_of_dimension hd] at hmetric
  cases hmetric

/-- Every requested path names a member. -/
private theorem exists_member_of_mem_requested {e : Expansion} (he : scope.IsExpansion query e) :
    ∀ path ∈ query.dimensions ++ query.metrics, ∃ m, scope.repository.member path = .ok m := by
  refine List.forall_mem_append.2 ⟨fun path hpath => ?_, fun path hpath => ?_⟩
  · obtain ⟨m, -, hm⟩ := exists_mem_of_forall₂ he.forall₂_dimensions.flip (mem_distinct.2 hpath)
    exact ⟨m, Repository.member_of_dimension hm⟩
  · obtain ⟨m, -, hm⟩ := exists_mem_of_forall₂ he.forall₂_metrics.flip (mem_distinct.2 hpath)
    exact ⟨m, Repository.member_of_metric hm⟩

/-- A compiled query selects the requested dimensions and then the requested metrics, each once, in
the order in which they are first requested, under their labels, and no hidden metric. Its columns
can be described, and the described columns are exactly the selected ones. -/
theorem introspect_of_statement {st : Statement} (h : scope.statement query = .ok st) :
    ∃ e columns, scope.expand query = .ok e ∧ scope.repository.introspect query = .ok columns ∧
      (∃ dimensions metrics, st.select = dimensions ++ metrics ∧
        List.Forall₂ (scope.IsColumn e scope.repository.dimension) (distinct query.dimensions)
          dimensions ∧
        List.Forall₂ (scope.IsColumn e scope.repository.metric) (distinct query.metrics) metrics) ∧
      (∀ m ∈ e.hidden, m.path ∉ query.dimensions ∧ m.path ∉ query.metrics) ∧
      columns.names.Nodup ∧
      (∀ name, name ∈ columns.names ↔ some name ∈ st.select.map (·.label)) ∧
      ∀ column ∈ columns, ∃ path ∈ query.dimensions ++ query.metrics, ∃ m,
        scope.repository.member path = .ok m ∧ column = (labelOf path, m.columnInfo) := by
  obtain ⟨e, segments, hexpand, -, hroot⟩ := exists_parts_of_statement h
  have he := isExpansion_of_expand hexpand
  -- The selected expressions are those of the dimensions, followed by those of the metrics.
  have hselect := hroot.select.flip
  have hdimensions : List.Forall₂ (scope.IsColumn e scope.repository.dimension)
      (distinct query.dimensions) (st.select.take e.dimensions.length) :=
    forall₂_isColumn (fun _ _ => Repository.member_of_dimension) he.forall₂_dimensions
      (List.forall₂_take_append _ _ _ hselect).flip
  have hmetrics : List.Forall₂ (scope.IsColumn e scope.repository.metric)
      (distinct query.metrics) (st.select.drop e.dimensions.length) :=
    forall₂_isColumn (fun _ _ => Repository.member_of_metric) he.forall₂_metrics
      (List.forall₂_drop_append _ _ _ hselect).flip
  obtain ⟨columns, hcolumns, hnames, hmembers⟩ := Repository.exists_introspect
    (exists_member_of_mem_requested he)
  refine ⟨e, columns, hexpand, hcolumns,
    ⟨_, _, (List.take_append_drop ..).symm, hdimensions, hmetrics⟩,
    fun m hm => path_not_mem_of_hidden hexpand hm, hnames ▸ nodup_distinct _, ?_, hmembers⟩
  intro name
  -- Both sides are the labels of the requested paths, whichever of them are repeated.
  have hlabels : st.select.map (·.label) =
      (distinct query.dimensions ++ distinct query.metrics).map (some <| labelOf ·) := by
    rw [← List.take_append_drop e.dimensions.length st.select, List.map_append, List.map_append,
      map_label_of_forall₂ hdimensions, map_label_of_forall₂ hmetrics]
  rw [hnames, mem_distinct, hlabels]
  simp

/-- A model of books, with a metric that only a condition reads. -/
private def bookModel : Model where
  name := "book"
  source := .table "books"
  dimensions := [{ name := "id", type := .number, primaryKey := true }, { name := "genre" },
    { name := "added", type := .date }]
  metrics := [⟨"count", none, fun _ => [.sql "count(*)"]⟩,
    ⟨"pages", none, fun _ => [.sql "sum(", .column "pages", .sql ")"]⟩]

private def bookScope : CompileScope where
  repository := { models := [bookModel], joins := [] }
  dialect := .ansi
  context := .null
  now := ⟨⟨2024, 1, 1⟩, .midnight⟩

/-- Paths that are requested twice, and a condition on a metric that is not requested. -/
private def bookQuery : Query where
  dimensions := ["book.genre", "book.added.month", "book.genre"]
  metrics := ["book.id.adhoc_max", "book.count", "book.id.adhoc_max"]
  filter := some (.leaf ⟨.greater, "book.pages", some (.number (.int 100))⟩)

/-- Every path is selected once, and the metric of the condition is neither selected nor
described. -/
theorem introspect_of_statement_books :
    ∃ st e columns, bookScope.statement bookQuery = .ok st ∧ bookScope.expand bookQuery = .ok e ∧
      bookScope.repository.introspect bookQuery = .ok columns ∧
      st.select.map (·.label) = [some "book___genre", some "book___added___month",
        some "book___id___adhoc_max", some "book___count"] ∧
      e.hidden.map Member.path = ["book.pages"] ∧ columns.names.Nodup ∧
      ∀ name, name ∈ columns.names ↔ some name ∈ st.select.map (·.label) := by
  have hselect : (bookScope.statement bookQuery).toOption.map
      (fun st => st.select.map (·.label)) = some [some "book___genre",
        some "book___added___month", some "book___id___adhoc_max", some "book___count"] := by
    decide +kernel
  have hhidden : (bookScope.expand bookQuery).toOption.map (fun e => e.hidden.map Member.path) =
      some ["book.pages"] := by
    decide +kernel
  obtain ⟨st, hst, hselect⟩ := exists_ok_of_toOption_map hselect
  obtain ⟨e, columns, he, hcolumns, -, -, hnodup, hnames, -⟩ := introspect_of_statement hst
  rw [he] at hhidden
  exact ⟨st, e, columns, hst, he, hcolumns, hselect, Option.some.inj hhidden, hnodup, hnames⟩

end CompileScope

end MetricLayer
