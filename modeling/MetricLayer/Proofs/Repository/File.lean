import MetricLayer.Proofs.Repository.Validation
import MetricLayer.Repository.File

/-!
# Definitions that are written as text

The definitions of a repository are functions of the compile context. Those of a repository that a
schema file declares come from template texts, so they depend on the context in one way only: the
values that their pointers find in it.
-/

namespace MetricLayer

open TemplateText (memberTemplate joinTemplate)

/-- Every definition of a repository is that of a template text. -/
structure Repository.DefinedByText (r : Repository) : Prop where
  dimension : ∀ m ∈ r.models, ∀ d ∈ m.dimensions, ∀ f, d.definition = some f →
    ∃ pieces, f = memberTemplate pieces
  metric : ∀ m ∈ r.models, ∀ x ∈ m.metrics, ∃ pieces, x.definition = memberTemplate pieces
  join : ∀ j ∈ r.joins, ∃ pieces, j.condition = joinTemplate pieces

private theorem DimensionEntry.definition_of_dimension {e : DimensionEntry} {d : Dimension}
    (h : e.dimension = .ok d) {f : MemberScope → Template} (hf : d.definition = some f) :
    ∃ pieces, f = memberTemplate pieces := by
  obtain ⟨format, -, h⟩ := exists_ok_of_bind h
  obtain ⟨definition, hdefinition, h⟩ := exists_ok_of_bind h
  obtain rfl := Except.ok.inj h
  cases hsql : e.sql with
  | none =>
    rw [hsql] at hdefinition
    obtain rfl : none = definition := Except.ok.inj hdefinition
    cases hf
  | some text =>
    rw [hsql] at hdefinition
    obtain ⟨pieces, -, hpieces⟩ := exists_ok_of_bind hdefinition
    obtain rfl : some (memberTemplate pieces) = definition := Except.ok.inj hpieces
    exact ⟨pieces, (Option.some.inj hf).symm⟩

private theorem MetricEntry.definition_of_metric {e : MetricEntry} {x : Metric}
    (h : e.metric = .ok x) : ∃ pieces, x.definition = memberTemplate pieces := by
  obtain ⟨pieces, -, h⟩ := exists_ok_of_bind h
  obtain ⟨format, -, h⟩ := exists_ok_of_bind h
  obtain rfl := Except.ok.inj h
  exact ⟨pieces, rfl⟩

private theorem JoinEntry.condition_of_join {e : JoinEntry} {j : Join} (h : e.join = .ok j) :
    ∃ pieces, j.condition = joinTemplate pieces := by
  obtain ⟨pieces, -, h⟩ := exists_ok_of_bind h
  obtain rfl := Except.ok.inj h
  exact ⟨pieces, rfl⟩

/-- The members of a model come from the entries of its own entry. -/
private theorem ModelEntry.entries_of_model {e : ModelEntry} {m : Model} (h : e.model = .ok m) :
    (∀ d ∈ m.dimensions, ∃ entry : DimensionEntry, entry.dimension = .ok d) ∧
      ∀ x ∈ m.metrics, ∃ entry : MetricEntry, entry.metric = .ok x := by
  obtain ⟨source, -, h⟩ := exists_ok_of_bind h
  obtain ⟨dimensions, hdimensions, h⟩ := exists_ok_of_bind h
  obtain ⟨metrics, hmetrics, h⟩ := exists_ok_of_bind h
  obtain rfl := Except.ok.inj h
  refine ⟨fun d hd => ?_, fun x hx => ?_⟩
  · obtain ⟨entry, -, hentry⟩ := Agree.exists_of_mem_mapM hdimensions hd
    exact ⟨entry, hentry⟩
  · obtain ⟨entry, -, hentry⟩ := Agree.exists_of_mem_mapM hmetrics hx
    exact ⟨entry, hentry⟩

/-- The definitions of a repository that a schema file declares are those of template texts. -/
theorem Repository.definedByText_of_parse {text : String} {r : Repository}
    (h : parse text = .ok r) : r.DefinedByText := by
  rw [parse] at h
  cases hfile : Toml.parse? text >>= SchemaFile.decode? with
  | none => rw [hfile] at h; cases h
  | some file =>
    rw [hfile] at h
    -- Validation leaves the declared models and joins as they are, so every definition can be
    -- traced back to the entry that it was read from.
    obtain ⟨⟨models, joins⟩, hdeclarations, hbuild⟩ := exists_ok_of_bind h
    obtain rfl := eq_of_build (ok_of_mapError hbuild)
    obtain ⟨_, hmodels, hdeclarations⟩ := exists_ok_of_bind (ok_of_mapError hdeclarations)
    obtain ⟨_, hjoins, hdeclarations⟩ := exists_ok_of_bind hdeclarations
    cases hdeclarations
    refine ⟨fun m hm d hd f hf => ?_, fun m hm x hx => ?_, fun j hj => ?_⟩
    · obtain ⟨e, -, he⟩ := Agree.exists_of_mem_mapM hmodels hm
      obtain ⟨entry, hentry⟩ := (ModelEntry.entries_of_model he).1 d hd
      exact DimensionEntry.definition_of_dimension hentry hf
    · obtain ⟨e, -, he⟩ := Agree.exists_of_mem_mapM hmodels hm
      obtain ⟨entry, hentry⟩ := (ModelEntry.entries_of_model he).2 x hx
      exact MetricEntry.definition_of_metric hentry
    · obtain ⟨e, -, he⟩ := Agree.exists_of_mem_mapM hjoins hj
      exact JoinEntry.condition_of_join he

end MetricLayer
