import MetricLayer.Filter.Predicate
import MetricLayer.Proofs.Result

/-!
# Predicates of trees by their parts

What the predicate of a filter is made of, one equivalence for each way in which filters are built.
Statements about predicates follow the tree along these and do not look into how it is walked.

- `PredicateScope.predicate_leaf_eq_ok_iff` — a leaf over the expression of its member;
- `PredicateScope.predicate_group_eq_ok_iff` — the predicates of a group joined by its connective;
- `PredicateScope.predicates_cons_eq_ok_iff` — several filters one by one.
-/

namespace MetricLayer.PredicateScope

open Sql (Fragment)

variable {scope : PredicateScope} {member : String → Result Fragment}

/-- A group that is not empty joins the predicates of its filters. -/
theorem group_eq_ok_iff {connective : Connective} {parts : List Fragment} {sql : Fragment} :
    group connective parts = .ok sql ↔
      parts ≠ [] ∧ sql = Predicate.combine (" " ++ connective.name ++ " ") parts := by
  rcases parts with _ | ⟨part, _ | ⟨next, rest⟩⟩
  · exact iff_of_false nofun fun h => h.1 rfl
  · exact ⟨fun h => ⟨by simp, (Except.ok.inj h).symm⟩, fun h => congrArg Except.ok h.2.symm⟩
  · exact ⟨fun h => ⟨by simp, (Except.ok.inj h).symm⟩, fun h => congrArg Except.ok h.2.symm⟩

/-- The predicate of a leaf is that of its operator over the expression of its member. -/
theorem predicate_leaf_eq_ok_iff {l : FilterLeaf} {sql : Fragment} :
    scope.predicate member (.leaf l) = .ok sql ↔ ∃ payload expr, l.check = .ok payload ∧
      member l.member = .ok expr ∧ scope.leaf l.operator l.member payload expr = .ok sql := by
  rw [predicate]
  simp only [bind_eq_ok_iff]
  constructor
  · rintro ⟨payload, hpayload, expr, hexpr, h⟩
    exact ⟨payload, expr, hpayload, hexpr, h⟩
  · rintro ⟨payload, expr, hpayload, hexpr, h⟩
    exact ⟨payload, hpayload, expr, hexpr, h⟩

/-- The predicate of a group joins those of its filters. -/
theorem predicate_group_eq_ok_iff {connective : Connective} {children : List Filter}
    {sql : Fragment} : scope.predicate member (.group connective children) = .ok sql ↔
      ∃ parts, scope.predicates member children = .ok parts ∧ parts ≠ [] ∧
        sql = Predicate.combine (" " ++ connective.name ++ " ") parts := by
  rw [predicate, bind_eq_ok_iff]
  simp only [group_eq_ok_iff]

/-- The predicates of several filters are found from left to right. -/
theorem predicates_cons_eq_ok_iff {child : Filter} {rest : List Filter} {parts : List Fragment} :
    scope.predicates member (child :: rest) = .ok parts ↔ ∃ first others,
      scope.predicate member child = .ok first ∧ scope.predicates member rest = .ok others ∧
        parts = first :: others := by
  rw [predicates]
  simp only [bind_eq_ok_iff]
  constructor
  · rintro ⟨first, hfirst, others, hothers, h⟩
    exact ⟨first, others, hfirst, hothers, (Except.ok.inj h).symm⟩
  · rintro ⟨first, others, hfirst, hothers, rfl⟩
    exact ⟨first, hfirst, others, hothers, rfl⟩

/-- There are as many predicates as filters. -/
theorem length_of_predicates {fs : List Filter} {parts : List Fragment}
    (h : scope.predicates member fs = .ok parts) : parts.length = fs.length := by
  induction fs generalizing parts with
  | nil =>
    obtain rfl := Except.ok.inj h
    rfl
  | cons child rest ih =>
    obtain ⟨first, others, -, hothers, rfl⟩ := predicates_cons_eq_ok_iff.1 h
    rw [List.length_cons, List.length_cons, ih hothers]

end MetricLayer.PredicateScope
