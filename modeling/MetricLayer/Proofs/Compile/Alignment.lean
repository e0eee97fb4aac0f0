import MetricLayer.Proofs.Compile.Relation
import MetricLayer.Proofs.Sql.Alignment

/-!
# Bindings of compiled queries

A compiled query carries SQL text and values apart from each other, and only the order of both ties
a value to its mark. Where the literal SQL of the schema is neutral, this is enough: the scanner
finds exactly the marks that the compile wrote, in the order of their values. Names of models,
members, columns and tables are arbitrary, since they only enter the text between quotes.
-/

namespace MetricLayer

open Sql (Fragment Congruence ScanNeutral markPositions)

/-- The literal SQL of a template is neutral. -/
def Template.LiteralsNeutral (t : Template) : Prop :=
  ∀ text, .sql text ∈ t → ScanNeutral text

/-- All literal SQL that a repository contributes under a compile context is neutral: that of its
templates, and the subqueries that its models read from. -/
structure Repository.LiteralsNeutral (r : Repository) (context : Json) : Prop where
  dimension : ∀ m ∈ r.models, ∀ d ∈ m.dimensions,
    Template.LiteralsNeutral (d.template ⟨m.name, context⟩)
  metric : ∀ m ∈ r.models, ∀ x ∈ m.metrics,
    Template.LiteralsNeutral (x.definition ⟨m.name, context⟩)
  join : ∀ j ∈ r.joins, Template.LiteralsNeutral (j.template context)
  subquery : ∀ m ∈ r.models, ∀ text, m.source = .subquery text → ScanNeutral text

/-- A template with neutral literals is related to itself. -/
private theorem Template.LiteralsNeutral.related {R : Fragment → Fragment → Prop}
    (hR : Congruence R) {t : Template} (h : Template.LiteralsNeutral t) :
    Template.Related R t t := by
  refine List.forall₂_same.2 fun part hpart => ?_
  cases part with
  | sql text => exact .sql (hR.text (h text hpart))
  | value v => exact .value v v
  | identifier name => exact .identifier name
  | column name => exact .column name
  | dimension reference => exact .dimension reference
  | metric reference => exact .metric reference

/-- Over a repository with neutral literals, a scope is related to itself by every relation that
composition keeps. -/
private theorem CompileScope.related_self {R : Fragment → Fragment → Prop} (hR : Congruence R)
    {scope : CompileScope} (h : scope.repository.LiteralsNeutral scope.context) :
    scope.Related R scope where
  repository := rfl
  dialect := rfl
  dimension hm hd := (h.dimension _ hm _ hd).related hR
  metric hm hx := (h.metric _ hm _ hx).related hR
  join hj := (h.join _ hj).related hR
  subquery hm hsource := hR.text (h.subquery _ hm _ hsource)

/-- The fragment that a statement renders to is aligned. -/
private theorem CompileScope.aligned_render {scope : CompileScope}
    (h : scope.repository.LiteralsNeutral scope.context) {query : Query} {s : Sql.Statement}
    (hs : scope.statement query = .ok s) (l : Sql.Layout) :
    (s.render scope.dialect l).Aligned := by
  -- A compile is compared with itself: alignment does not look at the second side.
  have hself := scope.related_self Sql.aligned_congruence h
  have hrel := hself.statement Sql.aligned_congruence Query.isSimulation_eq (q := query) rfl
  exact ((hrel s s hs hs).render l).1

/-- Over neutral literals a compile never ends in a mismatch of marks and bindings, and the `k`-th
mark that the scanner finds in the rendered text is the one that was written for the `k`-th
binding. -/
theorem CompileScope.compile_written_eq_zip (scope : CompileScope)
    (h : scope.repository.LiteralsNeutral scope.context) (pretty : Bool) (query : Query) :
    (∀ marks bindings, scope.compile pretty query ≠ .error (.bindingMismatch marks bindings)) ∧
      ∀ result, scope.compile pretty query = .ok result →
        ∃ statement, scope.statement query = .ok statement ∧
          let f := statement.render scope.dialect ⟨pretty, 0⟩
          result.sql = scope.dialect.placeholders f.sql ∧
            (markPositions f.sql).length = result.bindings.length ∧
            f.written = (markPositions f.sql).zip result.bindings := by
  cases hs : scope.statement query with
  | error e => simp [CompileScope.compile, hs]
  | ok s =>
    -- The only error after a statement has been built is a wrong count of marks, which alignment
    -- excludes.
    have haligned := scope.aligned_render h hs ⟨pretty, 0⟩
    obtain ⟨hpositions, hvalues⟩ := haligned.written_eq
    have hcompile : scope.compile pretty query =
        .ok ⟨scope.dialect.placeholders (s.render scope.dialect ⟨pretty, 0⟩).sql,
          (s.render scope.dialect ⟨pretty, 0⟩).bindings⟩ := by
      rw [CompileScope.compile, hs]
      exact if_neg (not_not.2 haligned.markCount_eq)
    refine ⟨fun marks bindings => by simp [hcompile], fun result hresult => ⟨s, rfl, ?_⟩⟩
    obtain rfl := Except.ok.inj (hcompile.symm.trans hresult)
    refine ⟨rfl, ?_, List.zip_of_prod hpositions hvalues⟩
    rw [Sql.length_markPositions]
    exact haligned.markCount_eq

/-- A scope whose names hold quotes, marks and backslashes. -/
private def markedScope : CompileScope where
  repository := ⟨[{
    name := "a?\"b"
    source := .table "t\\?"
    dimensions := [{
      name := "id?"
      primaryKey := true
      definition := some fun _ => [.sql "coalesce('?', ", .column "\\", .sql ")"] }] }], []⟩
  dialect := .postgres
  context := .null
  now := ⟨⟨2024, 1, 1⟩, .midnight⟩

private def markedQuery : Query where
  dimensions := ["a?\"b.id?"]
  filter := some (.leaf ⟨.equals, "a?\"b.id?", some (.array [.string "x", .string "?"])⟩)
  limit := some 3

/-- Names and literals with question marks leave the bindings in place. -/
theorem CompileScope.compile_written_eq_zip_of_marked :
    ∃ result, markedScope.compile false markedQuery = .ok result ∧
      result.bindings = [.string "x", .string "?", Json.ofNat 3] ∧
      ∃ statement, markedScope.statement markedQuery = .ok statement ∧
        (statement.render .postgres ⟨false, 0⟩).written =
          (markPositions (statement.render .postgres ⟨false, 0⟩).sql).zip result.bindings := by
  have hneutral : markedScope.repository.LiteralsNeutral markedScope.context := by
    refine ⟨?_, ?_, ?_, ?_⟩
    · simp [markedScope, Template.LiteralsNeutral, Dimension.template]
      decide
    · simp [markedScope]
    · simp [markedScope]
    · simp [markedScope]
  have hbindings : (markedScope.compile false markedQuery).toOption.map (·.bindings) =
      some [.string "x", .string "?", Json.ofNat 3] := by decide +kernel
  cases hresult : markedScope.compile false markedQuery with
  | error e => rw [hresult] at hbindings; cases hbindings
  | ok result =>
    rw [hresult] at hbindings
    obtain ⟨statement, hstatement, -, -, hwritten⟩ :=
      (markedScope.compile_written_eq_zip hneutral false markedQuery).2 result hresult
    exact ⟨result, rfl, Option.some.inj hbindings, statement, hstatement, hwritten⟩

end MetricLayer
