import MetricLayer.Proofs.Distinct
import MetricLayer.Proofs.Filter.Truth
import MetricLayer.Segment.Expand

/-!
# Conjuncts of a filter

A query is taken apart along the conjuncts of its filter, and nothing else of the filter is looked
at afterwards. The conjuncts say together what the filter says, they are valid filters of their own,
and they refer to the members of the filter in the same order.

- `Filter.value` — the truth of a filter, given those of its leaves;
- `Filter.truth_eq_value` — over a database a filter has this truth;
- `Filter.all_value_conjuncts` — a filter holds as far as all its conjuncts do;
- `Filter.flatMap_leaves_conjuncts` — the conjuncts have the leaves of the filter, in order;
- `Filter.conjuncts_preserve` — these facts together for the filter of a query.
-/

namespace MetricLayer

namespace Filter

/-! ## Truth -/

section Truth

variable (valuation : FilterLeaf → Truth)

mutual

/-- The truth of a filter, given those of its leaves. A group of no filters that must all hold is
true. -/
def value : Filter → Truth
  | .leaf l => valuation l
  | .group connective children => connective.truth (values children)

/-- The truths of several filters. -/
def values : List Filter → List Truth
  | [] => []
  | child :: rest => child.value :: values rest

end

section Database

variable {V : Type} {scope : PredicateScope} {db : Sql.Semantics V} {assignment : String → Option V}
  {valuation}

mutual

/-- Where every leaf has a truth over a database, so has the filter. -/
theorem truth_eq_value : (f : Filter) →
    (∀ l ∈ f.leaves, (Filter.leaf l).truth scope db assignment = .ok (valuation l)) →
      f.truth scope db assignment = .ok (f.value valuation)
  | .leaf l, h => h l (List.mem_singleton_self l)
  | .group connective children, h => by
    rw [truth, truths_eq_values children h]
    rfl

/-- The truths of several filters are their values under the truths of the leaves. -/
private theorem truths_eq_values : (fs : List Filter) →
    (∀ l ∈ leavesAll fs, (Filter.leaf l).truth scope db assignment = .ok (valuation l)) →
      truths scope db assignment fs = .ok (values valuation fs)
  | [], _ => rfl
  | child :: rest, h => by
    obtain ⟨hchild, hrest⟩ := List.forall_mem_append.1 h
    rw [truths, truth_eq_value child hchild, truths_eq_values rest hrest]
    rfl

end

end Database

mutual

/-- A filter holds as far as all its conjuncts do. -/
theorem all_value_conjuncts : (f : Filter) →
    Truth.all (f.conjuncts.map (·.value valuation)) = f.value valuation
  | .leaf _ => Truth.and_yes _
  | .group .any _ => Truth.and_yes _
  | .group .all children => all_value_conjunctsAll children

/-- Several filters hold together where all their conjuncts do. -/
private theorem all_value_conjunctsAll : (fs : List Filter) →
    Truth.all ((conjunctsAll fs).map (·.value valuation)) = Truth.all (values valuation fs)
  | [] => rfl
  | child :: rest => by
    rw [conjunctsAll, List.map_append, Truth.all_append, all_value_conjuncts child,
      all_value_conjunctsAll rest]
    rfl

end

end Truth

/-! ## Validity -/

/-- The filter is not a group of which all filters must hold, so it has no conjuncts but itself. -/
def Indivisible (f : Filter) : Prop := ∀ children, f ≠ .group .all children

mutual

/-- The conjuncts of a valid filter are valid. -/
private theorem forall_conjuncts_validate : {f : Filter} → f.validate = .ok () →
    ∀ c ∈ f.conjuncts, c.validate = .ok ()
  | .leaf _, h, _, hc | .group .any _, h, _, hc => List.mem_singleton.1 hc ▸ h
  | .group .all children, h, c, hc => by
    rw [validate] at h
    split_ifs at h
    exact forall_conjunctsAll_validate h c hc

/-- The conjuncts of several valid filters are valid. -/
private theorem forall_conjunctsAll_validate : {fs : List Filter} → validateAll fs = .ok () →
    ∀ c ∈ conjunctsAll fs, c.validate = .ok ()
  | [], _, _, hc => nomatch hc
  | child :: rest, h, c, hc => by
    rw [validateAll] at h
    obtain ⟨⟨⟩, hchild, hrest⟩ := exists_ok_of_bind h
    rcases List.mem_append.1 hc with hc | hc
    · exact forall_conjuncts_validate hchild c hc
    · exact forall_conjunctsAll_validate hrest c hc

end

/-- An empty group at the top has no conjuncts, and everything else is checked as it is inside. -/
private theorem forall_conjuncts_validateTop {f : Filter} (h : f.validateTop = .ok ()) :
    ∀ c ∈ f.conjuncts, c.validate = .ok () := by
  cases f with
  | leaf l => exact forall_conjuncts_validate h
  | group connective children =>
    cases connective with
    | all => exact forall_conjunctsAll_validate h
    | any => exact forall_conjuncts_validate h

mutual

/-- Groups of which all filters hold are taken apart at any depth. -/
private theorem indivisible_of_mem_conjuncts : (f : Filter) → ∀ c ∈ f.conjuncts, c.Indivisible
  | .leaf _, _, hc | .group .any _, _, hc => List.mem_singleton.1 hc ▸ fun _ h => nomatch h
  | .group .all children, c, hc => indivisible_of_mem_conjunctsAll children c hc

/-- The conjuncts of several filters cannot be divided. -/
private theorem indivisible_of_mem_conjunctsAll : (fs : List Filter) →
    ∀ c ∈ conjunctsAll fs, c.Indivisible
  | [], _, hc => nomatch hc
  | child :: rest, c, hc =>
    (List.mem_append.1 hc).elim (indivisible_of_mem_conjuncts child c)
      (indivisible_of_mem_conjunctsAll rest c)

end

/-! ## Leaves -/

mutual

/-- The conjuncts have the leaves of the filter, in order. -/
theorem flatMap_leaves_conjuncts : (f : Filter) → f.conjuncts.flatMap leaves = f.leaves
  | .leaf _ | .group .any _ => List.append_nil _
  | .group .all children => flatMap_leaves_conjunctsAll children

/-- The conjuncts of several filters have their leaves in order. -/
private theorem flatMap_leaves_conjunctsAll : (fs : List Filter) →
    (conjunctsAll fs).flatMap leaves = leavesAll fs
  | [] => rfl
  | child :: rest => by
    rw [conjunctsAll, List.flatMap_append, flatMap_leaves_conjuncts child,
      flatMap_leaves_conjunctsAll rest, leavesAll]

end

/-- The leaves of a conjunct are leaves of the filter. -/
theorem mem_leaves_of_mem_conjuncts {f g : Filter} (hg : g ∈ f.conjuncts) {l : FilterLeaf}
    (hl : l ∈ g.leaves) : l ∈ f.leaves := by
  rw [← f.flatMap_leaves_conjuncts]
  exact List.mem_flatMap.2 ⟨g, hg, hl⟩

/-- The members of a filter are those of its conjuncts. -/
private theorem members_eq_distinct_conjuncts (f : Filter) :
    f.members = distinct (f.conjuncts.flatMap members) := by
  have hleaves : f.leaves.map (·.member) =
      f.conjuncts.flatMap fun c => c.leaves.map (·.member) := by
    rw [← f.flatMap_leaves_conjuncts, List.map_flatMap]
  rw [members, hleaves]
  exact (distinct_flatMap_distinct _ _).symm

/-! ## The filter of a query -/

/-- The filter of a query is true, false or unknown as all its conjuncts together are, whatever its
leaves are. Its conjuncts are valid and cannot be taken apart further, and the members of the filter
are those of its conjuncts at their first occurrence. -/
theorem conjuncts_preserve {f : Filter} (h : f.validateTop = .ok ()) :
    (∀ valuation, f.value valuation = Truth.all (f.conjuncts.map (·.value valuation))) ∧
    (∀ c ∈ f.conjuncts, c.validate = .ok () ∧ c.Indivisible) ∧
    f.members = distinct (f.conjuncts.flatMap members) := by
  refine ⟨fun valuation => (f.all_value_conjuncts valuation).symm, fun c hc => ?_, ?_⟩
  · exact ⟨forall_conjuncts_validateTop h c hc, indivisible_of_mem_conjuncts f c hc⟩
  · exact f.members_eq_distinct_conjuncts

/-! ### Orders of the year -/

/-- A group of groups, with one member in two conjuncts. -/
private def yearOrders : Filter :=
  .group .all [
    .leaf ⟨.equals, "orders.status", some (.string "paid")⟩,
    .group .all [
      .leaf ⟨.set, "orders.shop", none⟩,
      .group .any [
        .leaf ⟨.greater, "orders.total", some (.number (.int 100))⟩,
        .group .all [.leaf ⟨.equals, "orders.status", some (.string "sent")⟩]]]]

/-- The two groups at the top are taken apart into three conjuncts; the group inside the last one
stays. Where an order is known to be paid, its total is unknown and its shop is not given, the
filter and its conjuncts are false. -/
theorem conjuncts_preserve_yearOrders :
    yearOrders.validateTop = .ok () ∧ yearOrders.conjuncts.length = 3 ∧
    (∀ c ∈ yearOrders.conjuncts, c.validate = .ok () ∧ c.Indivisible) ∧
    distinct (yearOrders.conjuncts.flatMap members) =
      ["orders.status", "orders.shop", "orders.total"] ∧
    let valuation (l : FilterLeaf) : Truth :=
      if l.operator = .greater then .unknown else .ofBool (l.value = some (.string "paid"))
    yearOrders.conjuncts.map (·.value valuation) = [.yes, .no, .unknown] ∧
      yearOrders.value valuation = .no := by
  have hvalid : yearOrders.validateTop = .ok () := rfl
  obtain ⟨hvalue, hconjuncts, hmembers⟩ := conjuncts_preserve hvalid
  refine ⟨hvalid, rfl, hconjuncts, ?_, rfl, ?_⟩
  · rw [← hmembers]
    decide
  · rw [hvalue]
    rfl

end Filter

end MetricLayer
