import MetricLayer.Proofs.Filter.Predicate
import MetricLayer.Proofs.Sql.Scope

/-!
# Columns that filters read

The predicate of a filter reads no column of its own accord: all its columns are those of the
expressions that stand for its members. The columns of a nested statement are closed off from those
around it.
-/

namespace MetricLayer

open Sql (Fragment)

/-! ## Leaves -/

section Leaves

variable {expr : Fragment} {reference : String × String}

@[simp]
private theorem references_compare (expr : Fragment) (symbol : String) (v : Json) :
    (Predicate.compare expr symbol v).references = expr.references := by
  simp [Predicate.compare]

/-- What combined parts read is read by one of them. -/
private theorem mem_references_of_combine {separator : String} {parts : List Fragment}
    (h : reference ∈ (Predicate.combine separator parts).references) :
    ∃ f ∈ parts, reference ∈ f.references := by
  unfold Predicate.combine at h
  split at h
  · exact ⟨_, List.mem_cons_self, h⟩
  · simpa using h

/-- A test for membership reads what the member reads. -/
private theorem mem_references_of_membership {negated : Bool} {values : List Json}
    (h : reference ∈ (Predicate.membership negated expr values).references) :
    reference ∈ expr.references := by
  unfold Predicate.membership at h
  split at h
  · simpa using h
  · -- The listed values are bound, so only the expression reads columns.
    simpa using h

@[simp]
private theorem references_between (negated : Bool) (expr : Fragment) (range : Calendar.DateRange) :
    (Predicate.between negated expr range).references = expr.references := by
  simp [Predicate.between]

@[simp]
private theorem references_nested (negated : Bool) (expr rows : Fragment) :
    (Predicate.nested negated expr rows).references = expr.references := by
  simp [Predicate.nested]

/-- The predicate of a leaf reads what the expression of its member reads. -/
theorem PredicateScope.mem_references_of_leaf {scope : PredicateScope} {operator : Operator}
    {member : String} {payload : Payload} {sql : Fragment}
    (h : scope.leaf operator member payload expr = .ok sql) (hreference : reference ∈ sql.references) :
    reference ∈ expr.references := by
  -- An operator adds text and bound values to the expression, and neither reads a column.
  unfold PredicateScope.leaf at h
  cases payload with
  | none =>
    dsimp only at h
    split at h
    · obtain rfl := Except.ok.inj h
      simpa using hreference
    · obtain rfl := Except.ok.inj h
      simpa using hreference
    · cases h
  | values values =>
    dsimp only at h
    split at h
    iterate 4
      · obtain rfl := Except.ok.inj h
        exact mem_references_of_membership hreference
    split at h
    · obtain rfl := Except.ok.inj h
      obtain ⟨f, hf, hmem⟩ := mem_references_of_combine hreference
      obtain ⟨v, -, rfl⟩ := List.mem_map.1 hf
      simpa using hmem
    · cases h
  | strings strings =>
    dsimp only at h
    split at h
    · obtain rfl := Except.ok.inj h
      obtain ⟨f, hf, hmem⟩ := mem_references_of_combine hreference
      obtain ⟨s, -, rfl⟩ := List.mem_map.1 hf
      simpa using hmem
    · cases h
  | date text =>
    obtain ⟨range, -, h⟩ := exists_ok_of_bind h
    split at h
    · obtain rfl := Except.ok.inj h
      simpa using hreference
    · obtain rfl := Except.ok.inj h
      simpa using hreference
    · cases h
  | phrase _ | bounds _ _ =>
    obtain ⟨range, -, h⟩ := exists_ok_of_bind h
    obtain rfl := Except.ok.inj h
    simpa using hreference
  | query query =>
    obtain ⟨statement, -, h⟩ := exists_ok_of_bind h
    obtain ⟨-, h⟩ := not_and_ok_of_check h
    obtain rfl := Except.ok.inj h
    simpa using hreference

end Leaves

/-! ## Trees -/

section Trees

variable {scope : PredicateScope} {member : String → Result Fragment}
  {reference : String × String}

mutual

/-- A column that the predicate of a filter reads is one of the expression of a member. -/
theorem PredicateScope.exists_leaf_of_predicate : {f : Filter} → {sql : Fragment} →
    scope.predicate member f = .ok sql → reference ∈ sql.references →
      ∃ l ∈ f.leaves, ∃ expr, member l.member = .ok expr ∧ reference ∈ expr.references
  | .leaf l, sql, h, hreference => by
    obtain ⟨payload, expr, -, hexpr, h⟩ := PredicateScope.predicate_leaf_eq_ok_iff.1 h
    refine ⟨l, ?_, expr, hexpr, PredicateScope.mem_references_of_leaf h hreference⟩
    simp [Filter.leaves]
  | .group connective children, sql, h, hreference => by
    obtain ⟨parts, hparts, -, rfl⟩ := PredicateScope.predicate_group_eq_ok_iff.1 h
    obtain ⟨f, hf, hmem⟩ := mem_references_of_combine hreference
    rw [Filter.leaves]
    exact PredicateScope.exists_leaf_of_predicates hparts hf hmem

/-- What the predicates of several filters read is read by the member of a leaf. -/
private theorem PredicateScope.exists_leaf_of_predicates : {fs : List Filter} →
    {parts : List Fragment} → scope.predicates member fs = .ok parts → {f : Fragment} →
    f ∈ parts → reference ∈ f.references →
      ∃ l ∈ Filter.leavesAll fs, ∃ expr, member l.member = .ok expr ∧ reference ∈ expr.references
  | [], parts, h, f, hf, _ => by
    obtain rfl := Except.ok.inj h
    cases hf
  | child :: rest, parts, h, f, hf, hreference => by
    obtain ⟨first, others, hfirst, hothers, rfl⟩ := PredicateScope.predicates_cons_eq_ok_iff.1 h
    rw [Filter.leavesAll]
    rcases List.mem_cons.1 hf with rfl | hf
    · obtain ⟨l, hl, hexpr⟩ := PredicateScope.exists_leaf_of_predicate hfirst hreference
      exact ⟨l, List.mem_append_left _ hl, hexpr⟩
    · obtain ⟨l, hl, hexpr⟩ := PredicateScope.exists_leaf_of_predicates hothers hf hreference
      exact ⟨l, List.mem_append_right _ hl, hexpr⟩

end

end Trees

end MetricLayer
