import MetricLayer.Compile.Assembly
import MetricLayer.Proofs.Filter.Binding
import MetricLayer.Proofs.Filter.Expression

/-!
# Negated operators

An operator and its negation take the same values. Their predicates bind the same values in the same
order, and one of them holds where the other one does not. Where the first is unknown, the second is
unknown as well.

All this is said of the value of a member. A predicate holds the text of its member without
parentheses, so the law reaches the text where the text of the member binds more tightly than
comparisons do. Where it does not, both predicates may hold in one row.

- `Operator.negation?` — the operator that denies what another one says;
- `PredicateScope.leafTruth_negation` — the law for the values of members;
- `PredicateScope.truth_negation` — the law for the text of predicates;
- `CompileScope.condition_negation_both_hold` — an alternative that is and is not false in one row.
-/

namespace MetricLayer

open Sql (BinaryOperator Fragment Expression ScalarSemantics Semantics comparisonRank)

/-- The operator that denies what another one says. -/
def Operator.negation? : Operator → Option Operator
  | .equals => some .notEquals
  | .oneOf => some .notOneOf
  | .set => some .notSet
  | .contains => some .notContains
  | .startsWith => some .notStartsWith
  | .endsWith => some .notEndsWith
  | .inDateRange => some .notInDateRange
  | .inQuery => some .notInQuery
  | _ => none

/-! ## Pairs of operators -/

section Pairs

variable {positive negative : Operator} (hpair : positive.negation? = some negative)

include hpair

/-- A pair of operators takes values of one shape. -/
theorem Operator.shape_negation : positive.shape = negative.shape := by
  cases positive <;> cases hpair <;> rfl

/-- Both operators of a pair write their values in the same places. -/
theorem Operator.arrange_negation (own values : List Json) :
    negative.arrange own values = positive.arrange own values := by
  cases positive <;> cases hpair <;> rfl

variable {scope : PredicateScope}

/-- A pair of operators compares a member with the same values. -/
theorem PredicateScope.bound_negation (payload : Payload) :
    scope.bound negative payload = scope.bound positive payload := by
  cases positive <;> cases hpair <;> cases payload <;> rfl

/-- An operator denies of a value what the other one of its pair says of it. -/
theorem PredicateScope.leafTruth_negation {V : Type} (db : Semantics V) (x : Option V)
    (payload : Payload) :
    scope.leafTruth db negative x payload = (scope.leafTruth db positive x payload).map .not := by
  -- But for the negation the two say the same, whatever the payload is.
  have hholds : scope.holds db negative x payload = scope.holds db positive x payload := by
    cases positive <;> cases hpair <;> cases payload <;> rfl
  have hpositive : positive.isNegated = false := by cases positive <;> cases hpair <;> rfl
  have hnegative : negative.isNegated = true := by cases positive <;> cases hpair <;> rfl
  rw [leafTruth, leafTruth, hholds, hpositive, hnegative]
  cases scope.holds db positive x payload <;> rfl

end Pairs

/-! ## Predicates of leaves -/

section Leaves

variable {scope : PredicateScope} {member : String → Result Fragment} {operator : Operator}
  {path : String} {value : Option Json} {sql : Fragment}

/-- Of two operators that take values of one shape, each has a predicate where the other has. -/
private theorem exists_predicate_congr {operator' : Operator}
    (hshape : operator.shape = operator'.shape)
    (h : scope.predicate member (.leaf ⟨operator, path, value⟩) = .ok sql) :
    ∃ sql', scope.predicate member (.leaf ⟨operator', path, value⟩) = .ok sql' := by
  obtain ⟨payload, expr, hcheck, hexpr, hleaf⟩ := PredicateScope.predicate_leaf_eq_ok_iff.1 h
  have hcheck' : FilterLeaf.check ⟨operator', path, value⟩ = .ok payload :=
    FilterLeaf.check_congr hcheck hshape rfl
  have hresolves : scope.Resolves payload :=
    (PredicateScope.exists_leaf_iff (FilterLeaf.takes_of_check hcheck)).1 ⟨sql, hleaf⟩
  obtain ⟨sql', hleaf'⟩ : ∃ sql', scope.leaf operator' path payload expr = .ok sql' :=
    (PredicateScope.exists_leaf_iff (FilterLeaf.takes_of_check hcheck')).2 hresolves
  exact ⟨sql', PredicateScope.predicate_leaf_eq_ok_iff.2 ⟨payload, expr, hcheck', hexpr, hleaf'⟩⟩

/-- The predicates of a pair bind the same values in the same order. -/
private theorem bindings_eq_of_negation {negative : Operator} {payload : Payload}
    {expr sql' : Fragment} (hpair : operator.negation? = some negative)
    (htakes : operator.Takes payload) (htakes' : negative.Takes payload)
    (h : scope.leaf operator path payload expr = .ok sql)
    (h' : scope.leaf negative path payload expr = .ok sql') : sql'.bindings = sql.bindings := by
  obtain ⟨values, hvalues, hbindings⟩ := PredicateScope.bindings_of_leaf htakes h
  obtain ⟨values', hvalues', hbindings'⟩ := PredicateScope.bindings_of_leaf htakes' h'
  rw [PredicateScope.bound_negation hpair] at hvalues'
  obtain rfl : values' = values := Except.ok.inj (hvalues'.symm.trans hvalues)
  rw [Operator.arrange_negation hpair] at hbindings'
  exact hbindings'.trans hbindings.symm

end Leaves

/-- An operator has a predicate where its negation has one, and both bind the same values in the same
order. Applied to the expression of a member, the second is the negation of the first on every row of
every database, nulls included. The two predicates are read as what is applied exactly where the
expression binds more tightly than comparisons do. -/
theorem PredicateScope.truth_negation (scope : PredicateScope) (member : String → Result Fragment)
    {positive negative : Operator} (hpair : positive.negation? = some negative) (path : String)
    (value : Option Json) :
    ((∃ sql, scope.predicate member (.leaf ⟨positive, path, value⟩) = .ok sql) ↔
      ∃ sql, scope.predicate member (.leaf ⟨negative, path, value⟩) = .ok sql) ∧
    ∀ sql sql', scope.predicate member (.leaf ⟨positive, path, value⟩) = .ok sql →
      scope.predicate member (.leaf ⟨negative, path, value⟩) = .ok sql' →
      sql'.bindings = sql.bindings ∧
      ∀ expr x, member path = .ok expr → expr.expression? = some x →
        (∀ query, FilterLeaf.check ⟨positive, path, value⟩ = .ok (.query query) →
          scope.ReadsNested query) →
        ∃ payload e e', FilterLeaf.check ⟨positive, path, value⟩ = .ok payload ∧
          scope.applied positive x payload = some e ∧ scope.applied negative x payload = some e' ∧
          (∀ {V : Type} (db : ScalarSemantics V) (row : List String → Option V),
            e'.truth db row = (e.truth db row).not) ∧
          (sql.expression? = some e ↔ comparisonRank < x.rank) ∧
          (sql'.expression? = some e' ↔ comparisonRank < x.rank) := by
  have hshape := Operator.shape_negation hpair
  refine ⟨⟨fun ⟨_, h⟩ => exists_predicate_congr hshape h,
    fun ⟨_, h⟩ => exists_predicate_congr hshape.symm h⟩, fun sql sql' h h' => ?_⟩
  obtain ⟨payload, expr, hcheck, hmember, hleaf⟩ := predicate_leaf_eq_ok_iff.1 h
  obtain ⟨payload', expr', hcheck', hmember', hleaf'⟩ := predicate_leaf_eq_ok_iff.1 h'
  obtain rfl : expr' = expr := Except.ok.inj (hmember'.symm.trans hmember)
  -- The two leaves have one payload.
  have hsame : FilterLeaf.check ⟨negative, path, value⟩ = .ok payload :=
    FilterLeaf.check_congr hcheck hshape rfl
  obtain rfl : payload' = payload := Except.ok.inj (hcheck'.symm.trans hsame)
  have htakes := FilterLeaf.takes_of_check hcheck
  have htakes' := FilterLeaf.takes_of_check hcheck'
  refine ⟨bindings_eq_of_negation hpair htakes htakes' hleaf hleaf', ?_⟩
  intro found x hfound hexpr hnested
  obtain rfl : found = expr' := Except.ok.inj (hfound.symm.trans hmember)
  have hquery : ∀ query, payload' = .query query → scope.ReadsNested query := by
    rintro query rfl
    exact hnested query hcheck
  obtain ⟨e, happlied, hread⟩ := exists_applied_iff hexpr htakes hquery hleaf
  obtain ⟨e', happlied', hread'⟩ := exists_applied_iff hexpr htakes' hquery hleaf'
  refine ⟨payload', e, e', hcheck, happlied, happlied', fun db row => ?_, hread, hread'⟩
  -- What is applied says of the value of the member what the leaves say.
  have htruth := leafTruth_of_applied db row x htakes happlied
  have htruth' := leafTruth_of_applied db row x htakes' happlied'
  rw [leafTruth_negation hpair, htruth] at htruth'
  exact (Except.ok.inj htruth').symm

/-! ### Notes on orders -/

/-- Authors with an age above some number. -/
private def noteScope : PredicateScope where
  dialect := .ansi
  now := ⟨⟨2024, 5, 15⟩, .midnight⟩
  nested _ := .ok {
    select := [⟨.ofColumn "a" "id" "\"a\".\"id\"", none⟩]
    source := some (.table "authors" (some "a"))
    filters := [.ofText "\"a\".\"age\" > " ++ .ofValue (.number (.int 30))] }

/-- A column of a note with a text behind it. -/
private def noteMember (path : String) : Result Fragment :=
  .ok (.ofColumn "n" path (Sql.Dialect.ansi.quotePath ["n", path]) ++ .ofText " || " ++
    .ofValue (.string "."))

/-- The column with the text behind it as an expression. -/
private def noteOperand (path : String) : Expression :=
  .binary .concat (.atom (.column ["n", path])) (.atom (.bound (.string ".")))

/-- The texts that a note is searched for. -/
private def searchedTexts : Json := .array [.string "late", .string "lost"]

/-- A query of one member. -/
private def authorQuery : Json := .object [("dimensions", .array [.string "authors.id"])]

/-- Several texts are searched for and a nested query is read, each after the text that stands
behind the column. -/
theorem PredicateScope.truth_negation_notes :
    (∃ sql sql', noteScope.predicate noteMember (.leaf ⟨.contains, "text", some searchedTexts⟩) =
        .ok sql ∧
      noteScope.predicate noteMember (.leaf ⟨.notContains, "text", some searchedTexts⟩) = .ok sql' ∧
      sql.bindings = [.string ".", .string "late", .string ".", .string "lost"] ∧
      sql'.bindings = sql.bindings ∧
      ∃ e e', sql.expression? = some e ∧ sql'.expression? = some e' ∧
        ∀ {V : Type} (db : ScalarSemantics V) (row : List String → Option V),
          e'.truth db row = (e.truth db row).not) ∧
    ∃ sql sql', noteScope.predicate noteMember (.leaf ⟨.inQuery, "author", some authorQuery⟩) =
        .ok sql ∧
      noteScope.predicate noteMember (.leaf ⟨.notInQuery, "author", some authorQuery⟩) = .ok sql' ∧
      sql.bindings = [.string ".", .number (.int 30)] ∧ sql'.bindings = sql.bindings ∧
      ∃ e e', sql.expression? = some e ∧ sql'.expression? = some e' ∧
        ∀ {V : Type} (db : ScalarSemantics V) (row : List String → Option V),
          e'.truth db row = (e.truth db row).not := by
  have hnested (query : Query) : noteScope.ReadsNested query := by
    intro statement h
    obtain rfl := Except.ok.inj h
    exact ⟨_, rfl, by decide⟩
  have htext : (noteMember "text").toOption.map (·.expression?) =
      some (some (noteOperand "text")) := by
    decide +kernel
  have hauthor : (noteMember "author").toOption.map (·.expression?) =
      some (some (noteOperand "author")) := by
    decide +kernel
  have hcontains : (noteScope.predicate noteMember
      (.leaf ⟨.contains, "text", some searchedTexts⟩)).toOption.map (·.bindings) =
      some [.string ".", .string "late", .string ".", .string "lost"] := by
    decide +kernel
  have hinQuery : (noteScope.predicate noteMember
      (.leaf ⟨.inQuery, "author", some authorQuery⟩)).toOption.map (·.bindings) =
      some [.string ".", .number (.int 30)] := by
    decide +kernel
  obtain ⟨text, htext, hreadText⟩ := exists_ok_of_toOption_map htext
  obtain ⟨author, hauthor, hreadAuthor⟩ := exists_ok_of_toOption_map hauthor
  obtain ⟨contains, hcontains, hcontainsBindings⟩ := exists_ok_of_toOption_map hcontains
  obtain ⟨inQuery, hinQuery, hinQueryBindings⟩ := exists_ok_of_toOption_map hinQuery
  constructor
  · obtain ⟨hiff, hpair⟩ := PredicateScope.truth_negation noteScope noteMember
      (rfl : Operator.contains.negation? = some .notContains) "text" (some searchedTexts)
    obtain ⟨notContains, hnotContains⟩ := hiff.1 ⟨contains, hcontains⟩
    obtain ⟨hbindings, htruth⟩ := hpair _ _ hcontains hnotContains
    obtain ⟨-, e, e', -, -, -, hnot, hread, hread'⟩ :=
      htruth text (noteOperand "text") htext hreadText fun _ _ => hnested _
    exact ⟨contains, notContains, hcontains, hnotContains, hcontainsBindings, hbindings, e, e',
      hread.2 (by decide), hread'.2 (by decide), hnot⟩
  · obtain ⟨hiff, hpair⟩ := PredicateScope.truth_negation noteScope noteMember
      (rfl : Operator.inQuery.negation? = some .notInQuery) "author" (some authorQuery)
    obtain ⟨notInQuery, hnotInQuery⟩ := hiff.1 ⟨inQuery, hinQuery⟩
    obtain ⟨hbindings, htruth⟩ := hpair _ _ hinQuery hnotInQuery
    obtain ⟨-, e, e', -, -, -, hnot, hread, hread'⟩ :=
      htruth author (noteOperand "author") hauthor hreadAuthor fun _ _ => hnested _
    exact ⟨inQuery, notInQuery, hinQuery, hnotInQuery, hinQueryBindings, hbindings, e, e',
      hread.2 (by decide), hread'.2 (by decide), hnot⟩

/-! ### An alternative -/

/-- A model with a dimension that holds where one of two columns does. -/
private def permits : CompileScope where
  repository := {
    models := [{
      name := "m"
      source := .table "t"
      dimensions := [
        { name := "id", primaryKey := true },
        { name := "either", definition := some fun _ => [.column "a", .sql " or ", .column "b"] }] }]
    joins := [] }
  dialect := .ansi
  context := .null
  now := ⟨⟨2024, 1, 1⟩, .midnight⟩

/-- A condition on the alternative. -/
private def permitFilter (operator : Operator) : Conjunct :=
  ⟨.leaf ⟨operator, "m.either", some (.bool false)⟩, [], .dimension⟩

/-- The condition in front of the rows of the model. -/
private def permitCondition (operator : Operator) : Result Fragment :=
  permits.condition ⟨.ansi, permits.now, fun _ => .ok {}⟩ .model (permitFilter operator)

/-- The first column, or a comparison of the second one. -/
private def permitExpression (operator : BinaryOperator) : Expression :=
  .binary .or (.atom (.column ["m", "a"]))
    (.binary operator (.atom (.column ["m", "b"])) (.atom (.bound (.bool false))))

/-- Where the first part of an alternative holds, the alternative is false and is not false, since
both conditions only test its last part. -/
theorem CompileScope.condition_negation_both_hold :
    Repository.build permits.repository.models permits.repository.joins = .ok permits.repository ∧
    Operator.negation? .equals = some .notEquals ∧
    ∃ sql sql' e e', permitCondition .equals = .ok sql ∧ permitCondition .notEquals = .ok sql' ∧
      sql.expression? = some e ∧ sql'.expression? = some e' ∧
      ∀ {V : Type} (db : ScalarSemantics V) (row : List String → Option V),
        row ["m", "a"] = some (db.boolean true) →
          e.truth db row = .yes ∧ e'.truth db row = .yes := by
  have hequals : (permitCondition .equals).toOption.map (·.expression?) =
      some (some (permitExpression (.compare .equal))) := by
    decide +kernel
  have hdiffers : (permitCondition .notEquals).toOption.map (·.expression?) =
      some (some (permitExpression .differs)) := by
    decide +kernel
  obtain ⟨sql, hsql, hread⟩ := exists_ok_of_toOption_map hequals
  obtain ⟨sql', hsql', hread'⟩ := exists_ok_of_toOption_map hdiffers
  refine ⟨rfl, rfl, sql, sql', _, _, hsql, hsql', hread, hread', fun db row hrow => ?_⟩
  -- The second column does not matter, and so neither does what it is compared with.
  have hholds (operator : BinaryOperator) : (permitExpression operator).truth db row = .yes := by
    refine (db.truth_ofTruth _).trans ?_
    have hfirst : db.truth (row ["m", "a"]) = .yes := by
      rw [hrow, ScalarSemantics.truth, db.holds_boolean]
      rfl
    change (db.truth (row ["m", "a"])).or _ = _
    rw [hfirst]
    rfl
  exact ⟨hholds _, hholds _⟩

end MetricLayer
