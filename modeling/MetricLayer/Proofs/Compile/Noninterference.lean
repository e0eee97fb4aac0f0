import MetricLayer.Proofs.Compile.Relation
import MetricLayer.Proofs.Repository.File

/-!
# Values stay out of the text

Two queries that differ only in payload data compile to the same SQL text: whatever a request
supplies as a value reaches the database as a binding. Over a repository that a schema file
declares the same holds of the compile context.
-/

namespace MetricLayer

open Sql (Fragment Congruence)

/-- Equality of texts is kept by composition, whatever values are bound. -/
private theorem sql_congruence : Congruence fun f g => f.sql = g.sql where
  text _ := rfl
  column _ _ _ _ := rfl
  value _ _ := by rw [Fragment.sql_ofValue, Fragment.sql_ofValue]
  append hf hg := by rw [Fragment.sql_append, Fragment.sql_append, hf, hg]
  closed h := by rw [Fragment.sql_sealed, Fragment.sql_sealed, h]

/-- A template is related to itself. -/
private theorem Template.related_self (t : Template) :
    Template.Related (fun f g => f.sql = g.sql) t t := by
  refine List.forall₂_same.2 fun part _ => ?_
  cases part with
  | sql text => exact .sql rfl
  | value v => exact .value v v
  | identifier name => exact .identifier name
  | column name => exact .column name
  | dimension reference => exact .dimension reference
  | metric reference => exact .metric reference

/-! ## Two contexts -/

namespace TemplateText

/-- Under two contexts a piece stands for parts that differ in a bound value at most. -/
private theorem part?_related (context context' : Json) {join join' : Option JoinScope}
    (horigin : join.map (·.origin) = join'.map (·.origin))
    (htarget : join.map (·.target) = join'.map (·.target)) (piece : TextPiece) :
    Option.Rel (TemplatePart.Related fun f g => f.sql = g.sql) (part? context join piece)
      (part? context' join' piece) := by
  cases piece with
  | sql text => exact .some (.sql rfl)
  | column name => exact .some (.column name)
  | dimension reference => exact .some (.dimension reference)
  | metric reference => exact .some (.metric reference)
  | identifier name => exact .some (.identifier name)
  | context pointer => exact .some (.value _ _)
  | origin name =>
    -- Both sides stand in a join with the same origin, or in none.
    cases join <;> cases join' <;> simp only [Option.map_none, Option.map_some, reduceCtorEq,
      Option.some.injEq] at horigin
    · exact .none
    · simp only [part?, Option.map_some, JoinScope.originDimension, horigin]
      exact .some (.dimension _)
  | target name =>
    cases join <;> cases join' <;> simp only [Option.map_none, Option.map_some, reduceCtorEq,
      Option.some.injEq] at htarget
    · exact .none
    · simp only [part?, Option.map_some, JoinScope.targetDimension, htarget]
      exact .some (.dimension _)

/-- The text of a member says the same in every context, but for the values in it. -/
private theorem memberTemplate_related (pieces : List TextPiece) (model : String)
    (context context' : Json) :
    Template.Related (fun f g => f.sql = g.sql) (memberTemplate pieces ⟨model, context⟩)
      (memberTemplate pieces ⟨model, context'⟩) := by
  refine List.rel_filterMap (R := Eq) ?_ (List.forall₂_refl pieces)
  rintro piece _ rfl
  exact part?_related context context' rfl rfl piece

/-- The text of a join says the same in every context, but for the values in it. -/
private theorem joinTemplate_related (pieces : List TextPiece) (origin target : String)
    (context context' : Json) :
    Template.Related (fun f g => f.sql = g.sql) (joinTemplate pieces ⟨origin, target, context⟩)
      (joinTemplate pieces ⟨origin, target, context'⟩) := by
  refine List.rel_filterMap (R := Eq) ?_ (List.forall₂_refl pieces)
  rintro piece _ rfl
  exact part?_related context context' rfl rfl piece

end TemplateText

/-- Over definitions that are written as text, two contexts give related scopes. -/
private theorem CompileScope.related_of_definedByText {scope : CompileScope}
    (h : scope.repository.DefinedByText) (context : Json) :
    scope.Related (fun f g => f.sql = g.sql) { scope with context := context } where
  repository := rfl
  dialect := rfl
  dimension {m d} hm hd := by
    -- What a text says is written in it; only the values of its placeholders come from the context.
    rw [Dimension.template, Dimension.template]
    cases hdefinition : d.definition with
    | none => exact Template.related_self _
    | some f =>
      obtain ⟨pieces, rfl⟩ := h.dimension m hm d hd f hdefinition
      exact TemplateText.memberTemplate_related pieces _ _ _
  metric {m x} hm hx := by
    obtain ⟨pieces, hpieces⟩ := h.metric m hm x hx
    rw [hpieces]
    exact TemplateText.memberTemplate_related pieces _ _ _
  join {j} hj := by
    obtain ⟨pieces, hpieces⟩ := h.join j hj
    rw [Join.template, Join.template, hpieces]
    exact TemplateText.joinTemplate_related pieces _ _ _ _
  subquery _ _ := rfl

/-- Under one context every scope is related to itself. -/
private theorem CompileScope.related_rfl (scope : CompileScope) :
    scope.Related (fun f g => f.sql = g.sql) scope where
  repository := rfl
  dialect := rfl
  dimension _ _ := Template.related_self _
  metric _ _ := Template.related_self _
  join _ := Template.related_self _
  subquery _ _ := rfl

/-! ## Two compiles -/

/-- A compiled query is the rendered statement with its marks spelled for the dialect, and it has
as many bindings as marks. -/
theorem CompileScope.exists_statement_of_compile {scope : CompileScope} {pretty : Bool}
    {query : Query} {result : CompiledQuery} (h : scope.compile pretty query = .ok result) :
    ∃ statement, scope.statement query = .ok statement ∧
      result.sql = scope.dialect.placeholders (statement.render scope.dialect ⟨pretty, 0⟩).sql ∧
      Sql.markCount (statement.render scope.dialect ⟨pretty, 0⟩).sql = result.bindings.length := by
  rw [CompileScope.compile] at h
  split at h
  · cases h
  · rename_i statement hstatement
    dsimp only at h
    split_ifs at h with hcount
    obtain rfl := Except.ok.inj h
    exact ⟨statement, hstatement, rfl, not_not.1 hcount⟩

/-- Two queries that differ only in payload data compile to the same text with as many bindings.
Over a repository that a schema file declares the two compile contexts may differ as well. -/
theorem CompileScope.compile_sql_eq_of_alike (scope : CompileScope) (context : Json)
    (hcontext : context = scope.context ∨ ∃ text, Repository.parse text = .ok scope.repository)
    (pretty : Bool) {q q' : Query} (hq : q.Alike q') {a b : CompiledQuery}
    (ha : scope.compile pretty q = .ok a)
    (hb : { scope with context := context }.compile pretty q' = .ok b) :
    a.sql = b.sql ∧ a.bindings.length = b.bindings.length := by
  have hscope : scope.Related (fun f g => f.sql = g.sql) { scope with context := context } := by
    rcases hcontext with rfl | ⟨text, htext⟩
    · exact scope.related_rfl
    · exact scope.related_of_definedByText (Repository.definedByText_of_parse htext) context
  obtain ⟨s, hs, hsql, hcount⟩ := exists_statement_of_compile ha
  obtain ⟨s', hs', hsql', hcount'⟩ := exists_statement_of_compile hb
  -- Placeholders are spelled after the text is complete, so equal texts before that are enough.
  have hrender : (s.render scope.dialect ⟨pretty, 0⟩).sql =
      (s'.render scope.dialect ⟨pretty, 0⟩).sql :=
    (hscope.statement sql_congruence Query.isSimulation_alike hq s s' hs hs').render ⟨pretty, 0⟩
  refine ⟨?_, ?_⟩
  · rw [hsql, hsql', hrender]
  · rw [← hcount, ← hcount', hrender]

/-- A schema whose only dimension reads the compile context. -/
private def tenantSchema : String :=
  "[[models]]\nname = \"t\"\n[[models.dimensions]]\nname = \"id\"\nprimary_key = true\n" ++
    "sql = \"\x7bcontext:/k\x7d\"\n"

private def tenantScope (r : Repository) (tenant : String) : CompileScope :=
  ⟨r, .postgres, .object [("k", .string tenant)], ⟨⟨2024, 1, 1⟩, .midnight⟩⟩

private def tenantQuery (value : String) (limit : Nat) : Query where
  dimensions := ["t.id"]
  filter := some (.leaf ⟨.equals, "t.id", some (.array [.string value])⟩)
  limit := some limit

/-- The queries of two tenants differ in values only. -/
private theorem tenantQuery_alike (value value' : String) (limit limit' : Nat) :
    (tenantQuery value limit).Alike (tenantQuery value' limit') := by
  refine .intro rfl rfl (.some (.leaf (.values ?_ rfl))) rfl rfl rfl
  exact .inl rfl

/-- Two tenants ask with values of their own and are sent the same text. -/
theorem CompileScope.compile_sql_eq_of_alike_of_tenants :
    ∃ r a b, Repository.parse tenantSchema = .ok r ∧
      (tenantScope r "x").compile false (tenantQuery "1" 5) = .ok a ∧
      (tenantScope r "'; --").compile false (tenantQuery "?" 7) = .ok b ∧
      a.bindings = [.string "x", .string "x", .string "1", Json.ofNat 5] ∧
      a.sql = b.sql ∧ a.bindings.length = b.bindings.length := by
  have hrun : ((Repository.parse tenantSchema).toOption.bind fun r => do
      let a ← ((tenantScope r "x").compile false (tenantQuery "1" 5)).toOption
      let b ← ((tenantScope r "'; --").compile false (tenantQuery "?" 7)).toOption
      return (a.bindings, b.bindings.length)) =
        some ([.string "x", .string "x", .string "1", Json.ofNat 5], 4) := by decide +kernel
  cases hr : Repository.parse tenantSchema with
  | error e => rw [hr] at hrun; cases hrun
  | ok r =>
    cases ha : (tenantScope r "x").compile false (tenantQuery "1" 5) with
    | error e => simp [hr, ha, Except.toOption] at hrun
    | ok a =>
      cases hb : (tenantScope r "'; --").compile false (tenantQuery "?" 7) with
      | error e => simp [hr, ha, hb, Except.toOption] at hrun
      | ok b =>
        have hbindings : a.bindings = [.string "x", .string "x", .string "1", Json.ofNat 5] := by
          simp [hr, ha, hb, Except.toOption] at hrun
          exact hrun.1
        exact ⟨r, a, b, rfl, ha, hb, hbindings, compile_sql_eq_of_alike (tenantScope r "x") _
          (.inr ⟨_, hr⟩) false (tenantQuery_alike "1" "?" 5 7) ha hb⟩

end MetricLayer
