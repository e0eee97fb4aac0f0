import MetricLayer.Proofs.Result
import MetricLayer.Repository.Basic
import Mathlib.Data.List.Nodup
import Mathlib.Data.Sym.Sym2

/-!
# Validation

A repository is built of declarations that fit together, and of no others. Each check looks at one
declaration and at what it has seen before; it is matched here by a condition on the declarations as
a whole:

- `Repository.IsName` — names that can stand in a path;
- `Repository.WellFormed` — the conditions on models and joins;
- `Repository.build_eq_ok_iff` — exactly well-formed declarations make a repository, and it holds
  them as they are.
-/

namespace MetricLayer

namespace Repository

/-- A name can stand in a path: it is not empty and has no points. -/
def IsName (name : String) : Prop := name ≠ "" ∧ '.' ∉ name.toList

theorem badName_eq_false_iff {name : String} : badName name = false ↔ IsName name := by
  simp [badName, IsName]

/-- Declarations that fit together. -/
structure WellFormed (models : List Model) (joins : List Join) : Prop where
  modelName : ∀ m ∈ models, IsName m.name
  memberName : ∀ m ∈ models, ∀ name ∈ m.memberNames, IsName name
  /-- No two models share a name. -/
  modelsApart : (models.map (·.name)).Nodup
  /-- No two members of a model share a name. -/
  membersApart : ∀ m ∈ models, m.memberNames.Nodup
  /-- One dimension of every model is its primary key. -/
  key : ∀ m ∈ models, m.dimensions.countP (·.primaryKey) = 1
  /-- Joins lead between declared models. -/
  declared : ∀ j ∈ joins, j.origin ∈ models.map (·.name) ∧ j.target ∈ models.map (·.name)
  /-- No join leads back to its model. -/
  endsApart : ∀ j ∈ joins, j.origin ≠ j.target
  /-- No two joins relate the same two models. -/
  joinsApart : (joins.map fun j => s(j.origin, j.target)).Nodup

/-! ## Checks one after the other -/

/-- A list repeats nothing, and nothing of what was seen before, where its first entry is new and
the others are new after it. -/
private theorem nodup_and_disjoint_cons {α : Type} {seen rest : List α} {a : α} :
    (a :: rest).Nodup ∧ seen.Disjoint (a :: rest) ↔
      a ∉ seen ∧ rest.Nodup ∧ (seen ++ [a]).Disjoint rest := by
  simp only [List.nodup_cons, List.disjoint_append_left, List.disjoint_cons_right,
    List.singleton_disjoint]
  tauto

/-- The names of a model pass exactly when all are names, all differ, and none was seen before. -/
theorem checkNames_eq_ok_iff {model : String} {seen names : List String} :
    checkNames model seen names = .ok () ↔
      (∀ name ∈ names, IsName name) ∧ names.Nodup ∧ seen.Disjoint names := by
  induction names generalizing seen with
  | nil => simp [checkNames]
  | cons name rest ih =>
    -- The first name passes on its own, and is then among those that were seen.
    have hstep : checkNames model seen (name :: rest) = .ok () ↔
        IsName name ∧ name ∉ seen ∧ checkNames model (seen ++ [name]) rest = .ok () := by
      rw [checkNames, ← badName_eq_false_iff]
      by_cases hbad : badName name <;> by_cases hseen : name ∈ seen <;> simp [hbad, hseen]
    rw [hstep, ih, nodup_and_disjoint_cons, List.forall_mem_cons]
    tauto

/-- A check comes first, and what follows it next. -/
private theorem seq_eq_ok_iff {α : Type} {x : Result Unit} {f : Unit → Result α} {a : α} :
    x >>= f = .ok a ↔ x = .ok () ∧ f () = .ok a :=
  bind_eq_ok_iff.trans ⟨fun ⟨(), h⟩ => h, fun h => ⟨(), h⟩⟩

/-- A model passes exactly when its names are proper and distinct and it has one primary key. -/
theorem checkModel_eq_ok_iff {m : Model} : checkModel m = .ok () ↔
    IsName m.name ∧ (∀ name ∈ m.memberNames, IsName name) ∧ m.memberNames.Nodup ∧
      m.dimensions.countP (·.primaryKey) = 1 := by
  have hkey : (if m.dimensions.countP (·.primaryKey) ≠ 1 then
      throw (.invalidModel (.primaryKeys m.name (m.dimensions.countP (·.primaryKey)))) else
      pure () : Result Unit) = .ok () ↔ m.dimensions.countP (·.primaryKey) = 1 := by
    split_ifs with h
    · exact ⟨nofun, fun heq => absurd heq h⟩
    · exact ⟨fun _ => not_not.1 h, fun _ => rfl⟩
  have hstep : checkModel m = .ok () ↔ badName m.name = false ∧
      checkNames m.name [] m.memberNames = .ok () ∧ m.dimensions.countP (·.primaryKey) = 1 := by
    rw [checkModel]
    exact check_eq_ok_iff.trans <| and_congr (by simp) <| seq_eq_ok_iff.trans <|
      and_congr_right' hkey
  -- The checks in their order, each as a condition of its own.
  rw [hstep, checkNames_eq_ok_iff, badName_eq_false_iff]
  simp [and_assoc]

theorem checkModels_eq_ok_iff {seen : List String} {models : List Model} :
    checkModels seen models = .ok () ↔ (∀ m ∈ models, checkModel m = .ok ()) ∧
      (models.map (·.name)).Nodup ∧ seen.Disjoint (models.map (·.name)) := by
  induction models generalizing seen with
  | nil => simp [checkModels]
  | cons m rest ih =>
    have hstep : checkModels seen (m :: rest) = .ok () ↔ checkModel m = .ok () ∧ m.name ∉ seen ∧
        checkModels (seen ++ [m.name]) rest = .ok () :=
      seq_eq_ok_iff.trans (and_congr_right' check_eq_ok_iff)
    rw [hstep, ih, List.map_cons, nodup_and_disjoint_cons, List.forall_mem_cons]
    tauto

/-- The joins pass exactly when each connects two different known models and no two connect the same
pair. -/
theorem checkJoins_eq_ok_iff {names : List String} {seen : List (String × String)}
    {joins : List Join} : checkJoins names seen joins = .ok () ↔
      (∀ j ∈ joins, j.origin ∈ names ∧ j.target ∈ names) ∧ (∀ j ∈ joins, j.origin ≠ j.target) ∧
        (joins.map fun j => s(j.origin, j.target)).Nodup ∧
        (seen.map fun p => s(p.1, p.2)).Disjoint (joins.map fun j => s(j.origin, j.target)) := by
  induction joins generalizing seen with
  | nil => simp [checkJoins]
  | cons j rest ih =>
    have hstep : checkJoins names seen (j :: rest) = .ok () ↔
        j.origin ∈ names ∧ j.target ∈ names ∧ j.origin ≠ j.target ∧
          ¬ ((j.origin, j.target) ∈ seen ∨ (j.target, j.origin) ∈ seen) ∧
          checkJoins names (seen ++ [(j.origin, j.target)]) rest = .ok () := by
      rw [checkJoins]
      exact check_eq_ok_iff.trans <| and_congr not_not <| check_eq_ok_iff.trans <|
        and_congr not_not <| check_eq_ok_iff.trans <| and_congr_right' check_eq_ok_iff
    -- A pair that was seen in either direction is the same pair without its direction.
    have hpair : (j.origin, j.target) ∈ seen ∨ (j.target, j.origin) ∈ seen ↔
        s(j.origin, j.target) ∈ seen.map fun p => s(p.1, p.2) := by
      simp only [List.mem_map, Prod.exists, Sym2.eq_iff]
      grind
    rw [hstep, hpair, ih, List.map_cons, nodup_and_disjoint_cons, List.map_append,
      List.forall_mem_cons, List.forall_mem_cons, List.map_singleton]
    tauto

/-- Exactly well-formed declarations make a repository, and it holds them as they are. -/
theorem build_eq_ok_iff {models : List Model} {joins : List Join} {r : Repository} :
    build models joins = .ok r ↔ WellFormed models joins ∧ r = ⟨models, joins⟩ := by
  have hstep : build models joins = .ok r ↔ checkModels [] models = .ok () ∧
      checkJoins (models.map (·.name)) [] joins = .ok () ∧ ⟨models, joins⟩ = r :=
    seq_eq_ok_iff.trans <| and_congr_right' <| seq_eq_ok_iff.trans <|
      and_congr_right' ⟨Except.ok.inj, congrArg Except.ok⟩
  rw [hstep, checkModels_eq_ok_iff, checkJoins_eq_ok_iff]
  simp only [checkModel_eq_ok_iff]
  -- In the beginning nothing was seen, so what is left are the conditions themselves.
  constructor
  · rintro ⟨⟨hmodel, hmodels, -⟩, ⟨hdeclared, hends, hjoins, -⟩, rfl⟩
    exact ⟨⟨fun m hm => (hmodel m hm).1, fun m hm => (hmodel m hm).2.1, hmodels,
      fun m hm => (hmodel m hm).2.2.1, fun m hm => (hmodel m hm).2.2.2, hdeclared, hends, hjoins⟩,
      rfl⟩
  · rintro ⟨h, rfl⟩
    exact ⟨⟨fun m hm => ⟨h.modelName m hm, h.memberName m hm, h.membersApart m hm, h.key m hm⟩,
      h.modelsApart, List.disjoint_nil_left _⟩,
      ⟨h.declared, h.endsApart, h.joinsApart, List.disjoint_nil_left _⟩, rfl⟩

/-- A repository holds the models and joins that it was given. -/
theorem eq_of_build {models : List Model} {joins : List Join} {r : Repository}
    (h : build models joins = .ok r) : r = ⟨models, joins⟩ :=
  (build_eq_ok_iff.1 h).2

/-- The models and joins of a repository are well-formed. -/
theorem wellFormed_of_build {models : List Model} {joins : List Join} {r : Repository}
    (h : build models joins = .ok r) : WellFormed r.models r.joins := by
  obtain ⟨hformed, rfl⟩ := build_eq_ok_iff.1 h
  exact hformed

end Repository

end MetricLayer
