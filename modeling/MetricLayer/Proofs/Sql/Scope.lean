import MetricLayer.Proofs.Sql.Statement

/-!
# Columns in scope

A fragment remembers the columns that it reads, each with the name of a source. A statement is
scoped when each of its expressions reads only columns that its sources have, and each join
condition only columns of the joined source and of those that stand before it.

- `InScope` — one of several sources has a column;
- `Fragment.ReadsFrom` — an expression reads columns in scope only;
- `Statement.Scoped` — all expressions of a statement do.
-/

namespace MetricLayer.Sql

/-! ## Columns of composed fragments -/

namespace Fragment

@[simp]
theorem references_ofText (s : String) : (ofText s).references = [] := by
  by_cases h : s.isEmpty <;> simp [references, ofText, h, Piece.reference?]

@[simp]
theorem references_empty : empty.references = [] := references_ofText ""

@[simp]
theorem references_ofValue (v : Json) : (ofValue v).references = [] := rfl

@[simp]
theorem references_append (f g : Fragment) :
    (f ++ g).references = f.references ++ g.references := by
  simp [references]

@[simp]
theorem references_wrap (before : String) (f : Fragment) (after : String) :
    (f.wrap before after).references = f.references := by
  rw [wrap_eq]
  simp

@[simp]
theorem references_parenthesize (f : Fragment) : f.parenthesize.references = f.references :=
  references_wrap "(" f ")"

/-- A closed expression reads no column. -/
@[simp]
theorem references_sealed (f : Fragment) : f.sealed.references = [] := by
  unfold references sealed
  rw [List.filterMap_map, List.filterMap_eq_nil_iff]
  intro piece _
  cases piece <;> rfl

/-- A joined list refers to what one of its members refers to. -/
@[simp]
theorem mem_references_join {separator : String} {fs : List Fragment}
    {reference : String × String} : reference ∈ (join separator fs).references ↔
      ∃ f ∈ fs, reference ∈ f.references := by
  induction fs with
  | nil => simp [join]
  | cons f rest ih =>
    cases rest with
    | nil => simp [join]
    | cons g rest =>
      rw [join, references_append, references_append, references_ofText, List.append_nil,
        List.mem_append, ih]
      · simp
      · simp

end Fragment

/-- A granularity is text around the expression. -/
@[simp]
theorem references_granularity (d : Dialect) (g : Granularity) (f : Fragment) :
    (d.granularity g f).references = f.references := by
  cases d <;> cases g <;> exact Fragment.references_wrap _ _ _

/-- A pattern match refers to what its operand refers to: the pattern is a value. -/
@[simp]
theorem references_patternMatch (d : Dialect) (f : Fragment) (p : PatternMatch) (v : Json) :
    (d.patternMatch f p v).references = f.references := by
  simp [Dialect.patternMatch]

/-! ## Sources -/

/-- The name under which a source is read. -/
def Source.label? : Source → Option String
  | .table _ label | .raw _ label => label
  | .statement inner => inner.label

/-- Whether a source has a column. A statement has those that it selects. The columns of a table and
of SQL text are not known here, so they have whatever is read from them. -/
def Source.HasColumn : Source → String → Prop
  | .table .., _ | .raw .., _ => True
  | .statement inner, column => some column ∈ inner.select.map (·.label)

/-- One of the sources has the given name and the given column. -/
def InScope (sources : List Source) (reference : String × String) : Prop :=
  ∃ s ∈ sources, s.label? = some reference.1 ∧ s.HasColumn reference.2

/-- An expression reads only columns of the given sources. -/
def Fragment.ReadsFrom (f : Fragment) (sources : List Source) : Prop :=
  ∀ reference ∈ f.references, InScope sources reference

/-! ## Statements -/

/-- The sources that a statement reads and joins, in order. -/
def Statement.sources (st : Statement) : List Source :=
  st.source.toList ++ st.joins.map (·.source)

/-- The condition of each join reads only the joined source and those before it. -/
def JoinsScoped : (before : List Source) → List JoinClause → Prop
  | _, [] => True
  | before, j :: rest =>
    (∀ f ∈ j.condition, f.ReadsFrom (before ++ [j.source])) ∧ JoinsScoped (before ++ [j.source]) rest

/-- Every expression of a statement reads only columns of its sources, which have different names. -/
structure Statement.Scoped (st : Statement) : Prop where
  labels : (st.sources.map Source.label?).Nodup
  joins : JoinsScoped st.source.toList st.joins
  select : ∀ item ∈ st.select, item.expr.ReadsFrom st.sources
  filters : ∀ f ∈ st.filters, f.ReadsFrom st.sources
  groupBy : ∀ f ∈ st.groupBy, f.ReadsFrom st.sources
  orderBy : ∀ o ∈ st.orderBy, o.expr.ReadsFrom st.sources

end MetricLayer.Sql
