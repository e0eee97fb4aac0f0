import MetricLayer.Proofs.Filter.Payload
import MetricLayer.Proofs.Filter.Predicate
import MetricLayer.Proofs.Sql.Fragment

/-!
# Values that filters bind

When a filter has a predicate, and which values this predicate binds. The leaves are taken from left
to right. A leaf contributes the values that it compares its member with, in the order in which they
are given, and the expression of the member brings its own values each time it is written.

- `PredicateScope.Resolves` — the dates of a payload can be read and its query has one column;
- `PredicateScope.bound`, `Operator.arrange` — the values that a payload is compared with, and their
  places among those of the member;
- `PredicateScope.predicate_binds_in_order` — the two together for trees of any shape.
-/

namespace MetricLayer

open Sql (Fragment)

/-! ## Predicates of leaves -/

/-- The dates of a payload can be read, and its query has a statement with one column. -/
def PredicateScope.Resolves (scope : PredicateScope) : Payload → Prop
  | .none | .values _ | .strings _ => True
  | .date text | .phrase text => ∃ range, Calendar.parseDate text scope.now = .ok range
  | .bounds first last => ∃ range, Calendar.parseBounds first last scope.now = .ok range
  | .query query => ∃ statement, scope.nested query = .ok statement ∧ statement.select.length = 1

/-- The values that an operator with a payload compares a member with, in order. -/
def PredicateScope.bound (scope : PredicateScope) (operator : Operator) :
    Payload → Result (List Json)
  | .none => .ok []
  | .values values => .ok values
  | .strings texts => .ok (texts.map .string)
  | .date text => do
    let range ← Calendar.parseDate text scope.now
    return [.string (if operator = .afterDate then range.last.text else range.first.text)]
  | .phrase text => do
    let range ← Calendar.parseDate text scope.now
    return [.string range.first.text, .string range.last.text]
  | .bounds first last => do
    let range ← Calendar.parseBounds first last scope.now
    return [.string range.first.text, .string range.last.text]
  | .query query => do
    let statement ← scope.nested query
    return (statement.render scope.dialect .compact).bindings

/-- Whether an operator compares the member with each of its values on its own. -/
def Operator.isRepeated : Operator → Bool
  | .greater | .greaterOrEqual | .less | .lessOrEqual | .contains | .notContains | .startsWith
  | .notStartsWith | .endsWith | .notEndsWith => true
  | _ => false

/-- The values of a member before each value that it is compared with on its own, or before all that
it is compared with at once. -/
def Operator.arrange (operator : Operator) (own values : List Json) : List Json :=
  if operator.isRepeated then values.flatMap fun v => own ++ [v] else own ++ values

section Leaves

variable {scope : PredicateScope} {operator : Operator} {member : String} {payload : Payload}
  {expr sql : Fragment}

/-- A test for membership binds the listed values behind those of the member. -/
@[simp]
private theorem bindings_membership (negated : Bool) (expr : Fragment) (values : List Json) :
    (Predicate.membership negated expr values).bindings = expr.bindings ++ values := by
  unfold Predicate.membership
  split
  · rfl
  · have hvalues : (Fragment.join ", " (values.map .ofValue)).bindings = values := by
      simp [List.flatMap_map, Fragment.ofValue]
    rw [Fragment.bindings_append, Fragment.bindings_parenthesize, hvalues]
    rfl

/-- Combined parts bind their values one after the other. -/
@[simp]
private theorem bindings_combine (separator : String) (parts : List Fragment) :
    (Predicate.combine separator parts).bindings = parts.flatMap (·.bindings) := by
  unfold Predicate.combine
  split <;> simp

/-- Each matched text comes after the values of the expression. -/
private theorem bindings_patterns (d : Sql.Dialect) (p : Sql.PatternMatch) (expr : Fragment)
    (texts : List String) :
    (texts.map fun s => d.patternMatch expr p (.string s)).flatMap (·.bindings) =
      (texts.map .string).flatMap fun v => expr.bindings ++ [v] := by
  rw [List.flatMap_map, List.flatMap_map]
  rfl

/-- A range binds its ends behind the values of the member. -/
@[simp]
private theorem bindings_between (negated : Bool) (expr : Fragment) (range : Calendar.DateRange) :
    (Predicate.between negated expr range).bindings =
      expr.bindings ++ [.string range.first.text, .string range.last.text] := by
  simp [Predicate.between, Fragment.wrap, Fragment.ofValue, Fragment.ofText]

/-- A payload of the shape that an operator takes has a predicate where its dates and its query can
be resolved. -/
theorem PredicateScope.exists_leaf_iff (htakes : operator.Takes payload) :
    (∃ sql, scope.leaf operator member payload expr = .ok sql) ↔ scope.Resolves payload := by
  -- Where the operator takes the payload, only dates and queries are still to be resolved.
  cases htakes with
  | none hshape | values hshape | strings hshape =>
    cases operator <;> cases hshape <;> exact iff_of_true ⟨_, rfl⟩ trivial
  | date hshape =>
    constructor
    · rintro ⟨_, h⟩
      obtain ⟨range, hrange, -⟩ := exists_ok_of_bind h
      exact ⟨range, hrange⟩
    · rintro ⟨range, hrange⟩
      cases operator <;> cases hshape <;> exact ⟨_, bind_eq_ok_iff.2 ⟨range, hrange, rfl⟩⟩
  | phrase hshape | bounds hshape =>
    constructor
    · rintro ⟨_, h⟩
      obtain ⟨range, hrange, -⟩ := exists_ok_of_bind h
      exact ⟨range, hrange⟩
    · rintro ⟨range, hrange⟩
      exact ⟨_, bind_eq_ok_iff.2 ⟨range, hrange, rfl⟩⟩
  | query hshape =>
    constructor
    · rintro ⟨_, h⟩
      obtain ⟨statement, hstatement, h⟩ := exists_ok_of_bind h
      exact ⟨statement, hstatement, not_not.1 (not_and_ok_of_check h).1⟩
    · rintro ⟨statement, hstatement, hwidth⟩
      exact ⟨_, bind_eq_ok_iff.2 ⟨statement, hstatement, if_neg (not_not.2 hwidth)⟩⟩

/-- The predicate of a leaf binds the values of the payload among those of the member. -/
theorem PredicateScope.bindings_of_leaf (htakes : operator.Takes payload)
    (h : scope.leaf operator member payload expr = .ok sql) :
    ∃ values, scope.bound operator payload = .ok values ∧
      sql.bindings = operator.arrange expr.bindings values := by
  -- The values stand behind the expression, or each of them behind its own copy of it.
  cases htakes with
  | none hshape =>
    cases operator with
    | set | notSet =>
      obtain rfl := Except.ok.inj h
      exact ⟨_, rfl, (List.append_nil _).symm⟩
    | _ => cases hshape
  | @values values hshape _ =>
    refine ⟨values, rfl, ?_⟩
    cases operator with
    | equals | notEquals | oneOf | notOneOf =>
      obtain rfl := Except.ok.inj h
      exact bindings_membership ..
    | greater | greaterOrEqual | less | lessOrEqual =>
      obtain rfl := Except.ok.inj h
      rw [bindings_combine, List.flatMap_map]
      rfl
    | _ => cases hshape
  | @strings texts hshape _ =>
    refine ⟨texts.map .string, rfl, ?_⟩
    cases operator with
    | contains | notContains | startsWith | notStartsWith | endsWith | notEndsWith =>
      obtain rfl := Except.ok.inj h
      exact (bindings_combine ..).trans (bindings_patterns ..)
    | _ => cases hshape
  | date hshape =>
    obtain ⟨range, hrange, h⟩ := exists_ok_of_bind h
    rw [bound, hrange]
    cases operator with
    | beforeDate | afterDate =>
      obtain rfl := Except.ok.inj h
      exact ⟨_, rfl, rfl⟩
    | _ => cases hshape
  | phrase hshape | bounds hshape =>
    obtain ⟨range, hrange, h⟩ := exists_ok_of_bind h
    obtain rfl := Except.ok.inj h
    rw [bound, hrange]
    refine ⟨_, rfl, ?_⟩
    cases operator <;> cases hshape <;> exact bindings_between ..
  | query hshape =>
    obtain ⟨statement, hstatement, h⟩ := exists_ok_of_bind h
    obtain ⟨-, h⟩ := not_and_ok_of_check h
    obtain rfl := Except.ok.inj h
    rw [bound, hstatement]
    refine ⟨_, rfl, ?_⟩
    cases operator <;> cases hshape <;> rfl

end Leaves

/-! ## Predicates of trees -/

section Trees

variable {scope : PredicateScope} {member : String → Result Fragment}

/-- The member of a leaf is known, and its payload can be resolved where it passes its check. -/
def PredicateScope.Renders (scope : PredicateScope) (member : String → Result Fragment)
    (l : FilterLeaf) : Prop :=
  (∃ expr, member l.member = .ok expr) ∧ ∀ payload, l.check = .ok payload → scope.Resolves payload

/-- The values that a leaf contributes to the predicate of a filter: those of its payload, which is
read from the value of the leaf, among those of the expression of its member. -/
def PredicateScope.Contributes (scope : PredicateScope) (member : String → Result Fragment)
    (l : FilterLeaf) (bindings : List Json) : Prop :=
  ∃ payload expr values, l.check = .ok payload ∧ payload.Reads l.value ∧
    member l.member = .ok expr ∧ scope.bound l.operator payload = .ok values ∧
    bindings = l.operator.arrange expr.bindings values

mutual

/-- A filter has a predicate where it is valid and all its leaves can be rendered. -/
private theorem exists_predicate_iff : (f : Filter) →
    ((∃ sql, scope.predicate member f = .ok sql) ↔
      f.validate = .ok () ∧ ∀ l ∈ f.leaves, scope.Renders member l)
  | .leaf l => by
    rw [Filter.validate, Filter.leaves, List.forall_mem_singleton]
    simp only [PredicateScope.predicate_leaf_eq_ok_iff]
    cases hcheck : l.check with
    | error e =>
      constructor
      · rintro ⟨_, _, _, ⟨⟩, -⟩
      · rintro ⟨⟨⟩, -⟩
    | ok payload =>
      have hleaf (expr : Fragment) :
          (∃ sql, scope.leaf l.operator l.member payload expr = .ok sql) ↔ scope.Resolves payload :=
        PredicateScope.exists_leaf_iff (FilterLeaf.takes_of_check hcheck)
      constructor
      · rintro ⟨sql, payload', expr, hpayload, hexpr, h⟩
        obtain rfl := Except.ok.inj hpayload
        refine ⟨rfl, ⟨expr, hexpr⟩, fun payload' hpayload' => ?_⟩
        obtain rfl := Except.ok.inj (hcheck.symm.trans hpayload')
        exact (hleaf expr).1 ⟨sql, h⟩
      · rintro ⟨-, ⟨expr, hexpr⟩, hresolves⟩
        obtain ⟨sql, hsql⟩ := (hleaf expr).2 (hresolves payload hcheck)
        exact ⟨sql, payload, expr, rfl, hexpr, hsql⟩
  | .group connective children => by
    have hchildren := exists_predicates_iff children
    simp only [PredicateScope.predicate_group_eq_ok_iff]
    rw [Filter.validate, Filter.leaves]
    cases children with
    | nil =>
      -- A group without filters fails the check, and there is nothing to join.
      refine iff_of_false ?_ (fun h => nomatch h.1)
      rintro ⟨_, parts, hparts, hne, -⟩
      exact hne (Except.ok.inj hparts).symm
    | cons child rest =>
      rw [if_neg (by simp), ← hchildren]
      constructor
      · rintro ⟨sql, parts, hparts, -⟩
        exact ⟨parts, hparts⟩
      · rintro ⟨parts, hparts⟩
        -- There are as many parts as filters, so there is something to join.
        have hne : parts ≠ [] := by
          rintro rfl
          cases PredicateScope.length_of_predicates hparts
        exact ⟨_, parts, hparts, hne, rfl⟩

/-- Several filters have predicates where each of them is valid and has one. -/
private theorem exists_predicates_iff : (fs : List Filter) →
    ((∃ parts, scope.predicates member fs = .ok parts) ↔
      Filter.validateAll fs = .ok () ∧ ∀ l ∈ Filter.leavesAll fs, scope.Renders member l)
  | [] => iff_of_true ⟨_, rfl⟩ ⟨rfl, by simp [Filter.leavesAll]⟩
  | child :: rest => by
    have hchild := exists_predicate_iff child
    have hrest := exists_predicates_iff rest
    simp only [PredicateScope.predicates_cons_eq_ok_iff]
    rw [Filter.validateAll, Filter.leavesAll, List.forall_mem_append]
    constructor
    · rintro ⟨_, first, others, hfirst, hothers, -⟩
      obtain ⟨hvalid, hleaves⟩ := hchild.1 ⟨first, hfirst⟩
      obtain ⟨hvalidRest, hleavesRest⟩ := hrest.1 ⟨others, hothers⟩
      exact ⟨bind_eq_ok_iff.2 ⟨(), hvalid, hvalidRest⟩, hleaves, hleavesRest⟩
    · rintro ⟨hvalid, hleaves, hleavesRest⟩
      obtain ⟨⟨⟩, hvalid, hvalidRest⟩ := exists_ok_of_bind hvalid
      obtain ⟨first, hfirst⟩ := hchild.2 ⟨hvalid, hleaves⟩
      obtain ⟨others, hothers⟩ := hrest.2 ⟨hvalidRest, hleavesRest⟩
      exact ⟨_, first, others, hfirst, hothers, rfl⟩

end

mutual

/-- The predicate of a filter binds what its leaves contribute, from left to right. -/
private theorem exists_contributions : {f : Filter} → {sql : Fragment} →
    scope.predicate member f = .ok sql →
      ∃ parts, List.Forall₂ (scope.Contributes member) f.leaves parts ∧ sql.bindings = parts.flatten
  | .leaf l, sql, h => by
    obtain ⟨payload, expr, hcheck, hexpr, h⟩ := PredicateScope.predicate_leaf_eq_ok_iff.1 h
    obtain ⟨values, hvalues, hbindings⟩ :=
      PredicateScope.bindings_of_leaf (FilterLeaf.takes_of_check hcheck) h
    have hleaf : scope.Contributes member l sql.bindings :=
      ⟨payload, expr, values, hcheck, FilterLeaf.reads_of_check hcheck, hexpr, hvalues, hbindings⟩
    exact ⟨[sql.bindings], .cons hleaf .nil, by simp⟩
  | .group connective children, sql, h => by
    obtain ⟨parts, hparts, -, rfl⟩ := PredicateScope.predicate_group_eq_ok_iff.1 h
    rw [bindings_combine]
    exact exists_contributions_all hparts

/-- The predicates of several filters bind what their leaves contribute, in order. -/
private theorem exists_contributions_all : {fs : List Filter} → {sqls : List Fragment} →
    scope.predicates member fs = .ok sqls →
      ∃ parts, List.Forall₂ (scope.Contributes member) (Filter.leavesAll fs) parts ∧
        sqls.flatMap (·.bindings) = parts.flatten
  | [], sqls, h => by
    obtain rfl := Except.ok.inj h
    exact ⟨[], .nil, rfl⟩
  | child :: rest, sqls, h => by
    obtain ⟨first, others, hfirst, hothers, rfl⟩ := PredicateScope.predicates_cons_eq_ok_iff.1 h
    obtain ⟨parts, hleaves, hbindings⟩ := exists_contributions hfirst
    obtain ⟨partsRest, hleavesRest, hbindingsRest⟩ := exists_contributions_all hothers
    refine ⟨parts ++ partsRest, List.rel_append hleaves hleavesRest, ?_⟩
    rw [List.flatMap_cons, hbindings, hbindingsRest, List.flatten_append]

end

end Trees

/-- A filter has a predicate exactly where it is valid, its members are known, its dates can be read
and its nested queries have one column. The predicate then binds the values of its leaves from left
to right, each of them after those of the expression that it is compared with. -/
theorem PredicateScope.predicate_binds_in_order (scope : PredicateScope)
    (member : String → Result Fragment) (f : Filter) :
    ((∃ sql, scope.predicate member f = .ok sql) ↔
      f.validate = .ok () ∧ ∀ l ∈ f.leaves, scope.Renders member l) ∧
    ∀ sql, scope.predicate member f = .ok sql → ∃ parts,
      List.Forall₂ (scope.Contributes member) f.leaves parts ∧ sql.bindings = parts.flatten :=
  ⟨exists_predicate_iff f, fun _ h => exists_contributions h⟩

/-! ### A filter over visits -/

/-- Visits to shops, of which some have a name of some length. -/
private def visitScope : PredicateScope where
  dialect := .duckdb
  now := ⟨⟨2024, 5, 15⟩, .midnight⟩
  nested _ := .ok {
    select := [⟨.ofColumn "s" "id" "\"s\".\"id\"", none⟩]
    source := some (.table "shops" (some "s"))
    filters := [.ofText "length(\"s\".\"name\") > " ++ .ofValue (.number (.int 3))] }

/-- A column of a visit, with a value in place of a null. -/
private def visitMember (path : String) : Result Fragment :=
  .ok (.ofText "coalesce(" ++ .ofColumn "v" path (Sql.Dialect.duckdb.quotePath ["v", path]) ++
    .ofText ", " ++ .ofValue (.number (.int 0)) ++ .ofText ")")

private def longVisits : Filter :=
  .group .all [
    .leaf ⟨.greater, "length", some (.array [.number (.int 1), .number (.int 2)])⟩,
    .group .any [
      .leaf ⟨.notContains, "note", some (.array [.string "x", .string "y"])⟩,
      .leaf ⟨.inDateRange, "made", some (.array [.string "2024-01-01", .string "2024-01-31"])⟩],
    .leaf ⟨.set, "guest", none⟩,
    .leaf ⟨.inQuery, "shop", some (.object [("dimensions", .array [.string "shops.id"])])⟩]

/-- What is bound over a long visit: before each value stands what replaces a null. -/
private def longVisitBindings : List Json :=
  [.number (.int 0), .number (.int 1), .number (.int 0), .number (.int 2),
    .number (.int 0), .string "x", .number (.int 0), .string "y",
    .number (.int 0), .string "2024-01-01T00:00:00.000", .string "2024-01-31T23:59:59.999",
    .number (.int 0), .number (.int 0), .number (.int 3)]

/-- Every leaf brings what replaces a null each time it writes its member. -/
theorem PredicateScope.predicate_binds_in_order_visits :
    (longVisits.validate = .ok () ∧
      ∀ l ∈ longVisits.leaves, visitScope.Renders visitMember l) ∧
    ∃ sql parts, visitScope.predicate visitMember longVisits = .ok sql ∧
      List.Forall₂ (visitScope.Contributes visitMember) longVisits.leaves parts ∧
      sql.bindings = parts.flatten ∧ parts.flatten = longVisitBindings := by
  have hrun : (visitScope.predicate visitMember longVisits).toOption.map (·.bindings) =
      some longVisitBindings := by decide +kernel
  obtain ⟨sql, hsql, hvalues⟩ := exists_ok_of_toOption_map hrun
  obtain ⟨hiff, hbindings⟩ :=
    PredicateScope.predicate_binds_in_order visitScope visitMember longVisits
  obtain ⟨parts, hparts, heq⟩ := hbindings sql hsql
  exact ⟨hiff.1 ⟨sql, hsql⟩, sql, parts, hsql, hparts, heq, heq.symm.trans hvalues⟩

end MetricLayer
