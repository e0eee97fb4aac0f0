import MetricLayer.Proofs.Filter.Truth
import MetricLayer.Proofs.Sql.ExpressionReader

/-!
# Predicates of leaves as expressions

What an operator with a payload makes of any expression, as an expression of its own. The predicate
of a leaf is always written like it, but is read as it only where the expression binds more tightly
than comparisons do.

- `PredicateScope.applied` — the operator of a leaf applied to an expression;
- `Sql.Fragment.SaysOf` — a fragment is written like an expression that says something of another
  one;
- `exists_applied_of_leaf` — the predicate of a leaf says of an expression what the leaf says of its
  value;
- `exists_applied_iff` — the predicate is read like that exactly over an operand;
- `exists_expression_of_leaf` — over an operand, what is read says what the leaf says.
-/

namespace MetricLayer

open Sql (Fragment Symbol Expression BinaryOperator Semantics ScalarSemantics comparisonRank)

/-! ## Operators applied to expressions -/

namespace Sql.Expression

/-- Several expressions in parentheses with an operator between any two; one stands alone. -/
def combine (op : BinaryOperator) (first : Expression) : List Expression → Expression
  | [] => first
  | next :: rest => .paren ((next :: rest).foldl (.binary op) first)

/-- Equal to the only value, or one of several values. -/
def membership (negated : Bool) (x : Expression) : List Json → Expression
  | [v] => .binary (if negated then .differs else .compare .equal) x (.atom (.bound v))
  | values => .test (.oneOf negated values) x

/-- A value with wildcards around it. -/
def pattern (wildcards : Bool × Bool) (v : Json) : Expression :=
  let wildcard : Expression := .atom (.literal "%")
  let start := if wildcards.1 then .binary .concat wildcard (.atom (.bound v)) else .atom (.bound v)
  if wildcards.2 then .binary .concat start wildcard else start

end Sql.Expression

/-- The operator between the predicates of a group. -/
def Connective.operator : Connective → BinaryOperator
  | .all => .and
  | .any => .or

/-- An operator with a payload applied to an expression. -/
def PredicateScope.applied (scope : PredicateScope) (operator : Operator) (x : Expression) :
    Payload → Option Expression
  | .none => some (.test (.isNull (operator = .set)) x)
  | .values [] | .strings [] => none
  | .values (v :: vs) =>
    match operator.order? with
    | some comparison =>
      let compared (v : Json) : Expression := .binary (.compare comparison) x (.atom (.bound v))
      some (.combine .and (compared v) (vs.map compared))
    | none => some (.membership operator.isNegated x (v :: vs))
  | .strings (text :: texts) =>
    let matched (text : String) : Expression :=
      .binary (.like operator.isNegated) x (.pattern operator.wildcards (.string text))
    some (.combine (if operator.isNegated then .and else .or) (matched text) (texts.map matched))
  | .date text => do
    let range ← (Calendar.parseDate text scope.now).toOption
    if operator = .afterDate then
      return .binary (.compare .greater) x (.atom (.bound (.string range.last.text)))
    else return .binary (.compare .less) x (.atom (.bound (.string range.first.text)))
  | .phrase text => do
    let range ← (Calendar.parseDate text scope.now).toOption
    return .test (.between operator.isNegated (.string range.first.text) (.string range.last.text)) x
  | .bounds first last => do
    let range ← (Calendar.parseBounds first last scope.now).toOption
    return .test (.between operator.isNegated (.string range.first.text) (.string range.last.text)) x
  | .query query => do
    let statement ← (scope.nested query).toOption
    match (statement.render scope.dialect .compact).folded? with
    | some (.word "select" :: rest) => return .test (.inRows operator.isNegated rest) x
    | _ => none

/-! ## What predicates say of an expression -/

/-- The fragment is written like an expression that says something of `x`, and text can be read as
this expression exactly where `x` binds more tightly than comparisons do. -/
structure Sql.Fragment.SaysOf (f : Fragment) (x e : Expression) : Prop where
  spells : f.Spells e
  rank : comparisonRank ≤ e.rank
  wellFormed_iff : x.WellFormed → (e.WellFormed ↔ comparisonRank < x.rank)

/-- A pattern is an expression that can be read. -/
private theorem wellFormed_pattern (wildcards : Bool × Bool) (v : Json) :
    (Expression.pattern wildcards v).WellFormed := by
  have hvalue : (Expression.atom (.bound v)).WellFormed := Expression.wellFormed_atom trivial
  have hwildcard : (Expression.atom (.literal "%")).WellFormed := Expression.wellFormed_atom trivial
  obtain ⟨before, after⟩ := wildcards
  cases before <;> cases after <;>
    simp [Expression.pattern, Expression.wellFormed_binary_iff, hvalue, hwildcard, Expression.rank,
      BinaryOperator.rank, BinaryOperator.leftRank, Sql.atomRank]

/-- A pattern binds more tightly than comparisons. -/
private theorem comparisonRank_lt_pattern (wildcards : Bool × Bool) (v : Json) :
    comparisonRank < (Expression.pattern wildcards v).rank := by
  obtain ⟨before, after⟩ := wildcards
  cases before <;> cases after <;>
    simp [Expression.pattern, Expression.rank, BinaryOperator.rank, Sql.atomRank, comparisonRank]

section Parts

variable {expr : Fragment} {x : Expression} (hexpr : expr.Spells x)

include hexpr

/-- A comparison with a value or a pattern, which binds more tightly than comparisons do. -/
private theorem saysOf_binary {f : Fragment} {op : BinaryOperator} {y : Expression}
    {us : List Symbol} (hf : ∀ ts, expr.symbols? = some ts → f.symbols? = some (ts ++ us))
    (hus : us.map Symbol.fold = op.symbols ++ y.symbols fun _ => [])
    (hrank : op.rank = comparisonRank) (hy : y.WellFormed) (hyrank : comparisonRank < y.rank) :
    f.SaysOf x (.binary op x y) := by
  obtain ⟨ts, hts, htext⟩ := Option.map_eq_some_iff.1 hexpr
  refine ⟨?_, hrank.ge, fun hx => ?_⟩
  · rw [Fragment.Spells, Fragment.folded?, hf ts hts]
    simp [htext, hus, Expression.symbols]
  · rw [Expression.wellFormed_binary_iff, BinaryOperator.leftRank, if_pos hrank, hrank]
    exact ⟨fun h => h.1.1, fun h => ⟨⟨h, hx⟩, hyrank, hy⟩⟩

/-- A test of an expression. -/
private theorem saysOf_test {f : Fragment} {t : Sql.Test} {us : List Symbol}
    (hf : ∀ ts, expr.symbols? = some ts → f.symbols? = some (ts ++ us))
    (hus : us.map Symbol.fold = t.symbols) (ht : t.Readable) : f.SaysOf x (.test t x) := by
  obtain ⟨ts, hts, htext⟩ := Option.map_eq_some_iff.1 hexpr
  refine ⟨?_, le_rfl, fun hx => ?_⟩
  · rw [Fragment.Spells, Fragment.folded?, hf ts hts]
    simp [htext, hus, Expression.symbols]
  · rw [Expression.wellFormed_test_iff]
    exact ⟨fun h => h.2.1, fun h => ⟨ht, h, hx⟩⟩

/-- A comparison with a value is one of the expression. -/
private theorem saysOf_compare (comparison : Sql.Comparison) (v : Json) :
    (Predicate.compare expr comparison.operator v).SaysOf x
      (.binary (.compare comparison) x (.atom (.bound v))) := by
  have hspaced := spaced_operator comparison.ofOperator?_operator
  exact saysOf_binary hexpr (fun ts hts => symbols?_compare hts hspaced v) rfl rfl
    (Expression.wellFormed_atom trivial) (Expression.comparisonRank_lt_atom _)

/-- A test for membership is one of the expression. -/
private theorem saysOf_membership (negated : Bool) {values : List Json} (hvalues : values ≠ []) :
    (Predicate.membership negated expr values).SaysOf x (.membership negated x values) := by
  obtain ⟨v, values, rfl⟩ := List.exists_cons_of_ne_nil hvalues
  cases values with
  | nil =>
    cases negated with
    | true =>
      exact saysOf_binary hexpr (fun ts hts => symbols?_compare hts (by decide) v) rfl rfl
        (Expression.wellFormed_atom trivial) (Expression.comparisonRank_lt_atom _)
    | false => exact saysOf_compare hexpr .equal v
  | cons w values =>
    refine saysOf_test hexpr (fun ts hts => symbols?_listed hts negated (v :: w :: values)) ?_ hvalues
    have hlist : [.comma].intercalate ((v :: w :: values).map ([Symbol.value ·])) =
        Sql.valueSymbols (v :: w :: values) := rfl
    rw [hlist]
    cases negated <;>
      simp [Sql.Test.symbols, Sql.negation, Symbol.fold, Sql.map_fold_valueSymbols]

/-- A test for null is one of the expression. -/
private theorem saysOf_nullTest (null : Bool) :
    (expr.wrap "" (if null then " is null" else " is not null")).SaysOf x
      (.test (.isNull !null) x) := by
  refine saysOf_test hexpr (fun ts hts => symbols?_nullTest hts null) ?_ trivial
  cases null <;> decide

/-- A test for a range is one of the expression. -/
private theorem saysOf_between (negated : Bool) (range : Calendar.DateRange) :
    (Predicate.between negated expr range).SaysOf x
      (.test (.between negated (.string range.first.text) (.string range.last.text)) x) := by
  refine saysOf_test hexpr (fun ts hts => symbols?_between hts negated range) ?_ trivial
  cases negated <;> rfl

/-- A test for the rows of a statement is one of the expression. -/
private theorem saysOf_nested (negated : Bool) {rows : Fragment} {inner : List Symbol}
    (hrows : rows.symbols? = some (.word "select" :: inner)) (hinner : Sql.Balanced inner) :
    (Predicate.nested negated expr rows).SaysOf x
      (.test (.inRows negated (inner.map Symbol.fold)) x) := by
  refine saysOf_test hexpr (fun ts hts => symbols?_nested hts negated hrows) ?_ ?_
  · cases negated <;> simp [Sql.Test.symbols, Sql.negation, Symbol.fold]
  · exact Sql.balanced_map_fold hinner

/-- A match with a pattern is one of the expression. -/
private theorem saysOf_patternMatch (d : Sql.Dialect) (p : Sql.PatternMatch) (v : Json) :
    (d.patternMatch expr p v).SaysOf x
      (.binary (.like p.negated) x (.pattern (p.leadingWildcard, p.trailingWildcard) v)) := by
  obtain ⟨before, after, negated⟩ := p
  refine saysOf_binary hexpr (fun ts hts => symbols?_patternMatch hts d _ v) ?_ rfl ?_ ?_
  · cases negated <;> cases before <;> cases after <;> rfl
  · exact wellFormed_pattern _ v
  · exact comparisonRank_lt_pattern _ v

end Parts

/-! ### Several parts -/

section Combine

variable {x : Expression}

/-- A chain of operands is written with its operator between them. -/
private theorem symbols_foldl (op : BinaryOperator) (fill : String → List Symbol)
    (first : Expression) (rest : List Expression) :
    (rest.foldl (.binary op) first).symbols fill =
      op.symbols.intercalate ((first :: rest).map (·.symbols fill)) := by
  induction rest generalizing first with
  | nil => simp
  | cons next rest ih =>
    rw [List.foldl_cons, ih]
    cases rest <;> simp [List.intercalate_cons_cons, Expression.symbols]

/-- Parts that bind more tightly than the operator between them are well-formed together if each of
them is. -/
private theorem wellFormed_foldl_iff {op : BinaryOperator} (hop : op.leftRank = op.rank)
    {first : Expression} (hfirst : op.rank ≤ first.rank) {rest : List Expression}
    (hrest : ∀ e ∈ rest, op.rank < e.rank) :
    (rest.foldl (.binary op) first).WellFormed ↔ ∀ e ∈ first :: rest, e.WellFormed := by
  induction rest generalizing first with
  | nil => simp
  | cons next rest ih =>
    obtain ⟨hnext, hrest⟩ := List.forall_mem_cons.1 hrest
    rw [List.foldl_cons, ih (by rw [Expression.rank]) hrest]
    simp only [List.forall_mem_cons, Expression.wellFormed_binary_iff, hop]
    tauto

/-- A chain of operands holds as its connective says. -/
private theorem truth_foldl {V : Type} (db : ScalarSemantics V) (row : List String → Option V)
    (connective : Connective) (first : Expression) (rest : List Expression) :
    (rest.foldl (.binary connective.operator) first).truth db row =
      connective.truth ((first :: rest).map (·.truth db row)) := by
  induction rest generalizing first with
  | nil =>
    cases connective with
    | all => exact (Truth.and_yes _).symm
    | any => exact (Truth.or_no _).symm
  | cons next rest ih =>
    rw [List.foldl_cons, ih]
    cases connective with
    | all =>
      change ((db.ofTruth _ |> db.truth).and (Truth.all _)) = _
      rw [ScalarSemantics.truth_ofTruth]
      exact Truth.and_assoc ..
    | any =>
      change ((db.ofTruth _ |> db.truth).or (Truth.any _)) = _
      rw [ScalarSemantics.truth_ofTruth]
      exact Truth.or_assoc ..

/-- Combined operands hold as their connective says. -/
private theorem truth_combine {V : Type} (db : ScalarSemantics V) (row : List String → Option V)
    (connective : Connective) (first : Expression) (rest : List Expression) :
    (Expression.combine connective.operator first rest).truth db row =
      connective.truth ((first :: rest).map (·.truth db row)) := by
  cases rest with
  | nil => exact truth_foldl db row connective first []
  | cons next rest => exact truth_foldl db row connective first (next :: rest)

/-- Several fragments are written like expressions one by one. -/
private theorem exists_symbols {fs : List Fragment} {es : List Expression}
    (h : List.Forall₂ (fun f e => f.SaysOf x e) fs es) :
    ∃ tss, List.Forall₂ (fun f ts => f.symbols? = some ts) fs tss ∧
      tss.map (·.map Symbol.fold) = es.map (·.symbols fun _ => []) := by
  induction h with
  | nil => exact ⟨[], .nil, rfl⟩
  | cons hf _ ih =>
    obtain ⟨ts, hts, htext⟩ := Option.map_eq_some_iff.1 hf.spells
    obtain ⟨tss, htss, htexts⟩ := ih
    exact ⟨ts :: tss, .cons hts htss, by rw [List.map_cons, List.map_cons, htext, htexts]⟩

/-- Parts joined by a connective say of an expression what the connective says of them. -/
private theorem saysOf_combine (connective : Connective) {f : Fragment} {fs : List Fragment}
    {e : Expression} {es : List Expression}
    (h : List.Forall₂ (fun f e => f.SaysOf x e) (f :: fs) (e :: es)) :
    (Predicate.combine (" " ++ connective.name ++ " ") (f :: fs)).SaysOf x
      (.combine connective.operator e es) := by
  obtain ⟨tss, htss, htexts⟩ := exists_symbols h
  have hjoin := Fragment.symbols?_parenthesize (Fragment.symbols?_join connective.spaced htss)
  obtain ⟨hf, hfs⟩ := List.forall₂_cons.1 h
  cases hfs with
  | nil => exact hf
  | @cons g e' gs es hg hgs =>
    -- Every part binds more tightly than the connective, so none needs parentheses of its own.
    have hpart : ∀ part ∈ e :: e' :: es, comparisonRank ≤ part.rank ∧
        (x.WellFormed → (part.WellFormed ↔ comparisonRank < x.rank)) := by
      intro part hpart
      obtain ⟨_, _, hread⟩ := exists_mem_of_forall₂ h hpart
      exact ⟨hread.rank, hread.wellFormed_iff⟩
    have hop : connective.operator.leftRank = connective.operator.rank ∧
        connective.operator.rank < comparisonRank := by
      cases connective <;> decide
    have hword : [Symbol.word connective.name].map Symbol.fold = connective.operator.symbols := by
      cases connective <;> decide
    refine ⟨?_, ?_, fun hx => ?_⟩
    · rw [Fragment.Spells, Fragment.folded?, Predicate.combine, hjoin]
      · rw [Expression.combine, Expression.symbols, symbols_foldl, ← htexts, ← hword,
          ← Sql.map_fold_intercalate]
        simp [Symbol.fold]
      · simp
    · rw [Expression.combine, Expression.rank]
      decide
    · rw [Expression.combine, Expression.wellFormed_paren_iff, wellFormed_foldl_iff hop.1
        (hop.2.le.trans hf.rank)
        fun part hmem => hop.2.trans_le (hpart part (List.mem_cons_of_mem _ hmem)).1]
      exact ⟨fun hall => (hf.wellFormed_iff hx).1 (hall e List.mem_cons_self),
        fun hrank part hmem => ((hpart part hmem).2 hx).2 hrank⟩

end Combine

/-! ## Predicates of leaves -/

/-- The pattern of an operator has its negation and its wildcards. -/
private theorem of_pattern? {operator : Operator} {p : Sql.PatternMatch}
    (h : operator.pattern? = some p) : p.negated = operator.isNegated ∧
      (p.leadingWildcard, p.trailingWildcard) = operator.wildcards := by
  cases operator with
  | contains | notContains | startsWith | notStartsWith | endsWith | notEndsWith =>
    obtain rfl := Option.some.inj h
    exact ⟨rfl, rfl⟩
  | _ => cases h

/-- An operator with an order compares with each of its values. -/
private theorem leaf_of_order? {scope : PredicateScope} {operator : Operator} {member : String}
    {values : List Json} {expr : Fragment} {comparison : Sql.Comparison}
    (h : operator.order? = some comparison) :
    scope.leaf operator member (.values values) expr =
      .ok (Predicate.combine " and " (values.map (Predicate.compare expr comparison.operator))) := by
  cases operator <;> cases h <;> rfl

section Leaves

variable {expr : Fragment} {x : Expression} (hexpr : expr.Spells x)

include hexpr

/-- Comparisons with several values say that all of them hold. -/
private theorem saysOf_comparisons (comparison : Sql.Comparison) (v : Json) (vs : List Json) :
    (Predicate.combine " and " ((v :: vs).map (Predicate.compare expr comparison.operator))).SaysOf x
      (.combine .and (.binary (.compare comparison) x (.atom (.bound v)))
        (vs.map fun v => .binary (.compare comparison) x (.atom (.bound v)))) := by
  have hparts : List.Forall₂ (fun f e => f.SaysOf x e)
      ((v :: vs).map (Predicate.compare expr comparison.operator))
      ((v :: vs).map fun v => .binary (.compare comparison) x (.atom (.bound v))) := by
    rw [List.forall₂_map_left_iff, List.forall₂_map_right_iff, List.forall₂_same]
    exact fun v _ => saysOf_compare hexpr comparison v
  exact saysOf_combine .all hparts

/-- One of the texts is matched, or none of them. -/
private theorem saysOf_patterns (d : Sql.Dialect) (p : Sql.PatternMatch) (text : String)
    (texts : List String) :
    (Predicate.combine (if p.negated then " and " else " or ")
      ((text :: texts).map fun s => d.patternMatch expr p (.string s))).SaysOf x
      (let matched (s : String) : Expression := .binary (.like p.negated) x
        (.pattern (p.leadingWildcard, p.trailingWildcard) (.string s))
      .combine (if p.negated then .and else .or) (matched text) (texts.map matched)) := by
  have hparts : List.Forall₂ (fun f e => f.SaysOf x e)
      ((text :: texts).map fun s => d.patternMatch expr p (.string s))
      ((text :: texts).map fun s => .binary (.like p.negated) x
        (.pattern (p.leadingWildcard, p.trailingWildcard) (.string s))) := by
    rw [List.forall₂_map_left_iff, List.forall₂_map_right_iff, List.forall₂_same]
    exact fun s _ => saysOf_patternMatch hexpr d p (.string s)
  cases hnegated : p.negated with
  | true =>
    rw [hnegated] at hparts
    exact saysOf_combine .all hparts
  | false =>
    rw [hnegated] at hparts
    exact saysOf_combine .any hparts

/-- The predicate of a leaf is written like its operator applied to the expression. -/
theorem exists_applied_of_leaf {scope : PredicateScope} {operator : Operator} {member : String}
    {payload : Payload} {sql : Fragment} (htakes : operator.Takes payload)
    (hnested : ∀ query, payload = .query query → scope.ReadsNested query)
    (h : scope.leaf operator member payload expr = .ok sql) :
    ∃ e, scope.applied operator x payload = some e ∧ sql.SaysOf x e := by
  cases htakes with
  | none hshape =>
    cases operator with
    | set =>
      obtain rfl := Except.ok.inj h
      exact ⟨_, rfl, saysOf_nullTest hexpr false⟩
    | notSet =>
      obtain rfl := Except.ok.inj h
      exact ⟨_, rfl, saysOf_nullTest hexpr true⟩
    | _ => cases hshape
  | @values values hshape hvalues =>
    obtain ⟨v, vs, rfl⟩ := List.exists_cons_of_ne_nil hvalues
    cases horder : operator.order? with
    | some comparison =>
      rw [leaf_of_order? horder] at h
      obtain rfl := Except.ok.inj h
      rw [PredicateScope.applied]
      simp only [horder]
      exact ⟨_, rfl, saysOf_comparisons hexpr comparison v vs⟩
    | none =>
      cases operator with
      | equals | oneOf =>
        obtain rfl := Except.ok.inj h
        exact ⟨_, rfl, saysOf_membership hexpr false hvalues⟩
      | notEquals | notOneOf =>
        obtain rfl := Except.ok.inj h
        exact ⟨_, rfl, saysOf_membership hexpr true hvalues⟩
      | greater | greaterOrEqual | less | lessOrEqual => cases horder
      | _ => cases hshape
  | @strings texts hshape htexts =>
    obtain ⟨text, texts, rfl⟩ := List.exists_cons_of_ne_nil htexts
    unfold PredicateScope.leaf at h
    dsimp only at h
    split at h
    · rename_i p hp
      obtain rfl := Except.ok.inj h
      obtain ⟨hnegated, hwildcards⟩ := of_pattern? hp
      refine ⟨_, rfl, ?_⟩
      rw [← hnegated, ← hwildcards]
      exact saysOf_patterns hexpr scope.dialect p text texts
    · cases h
  | date hshape =>
    obtain ⟨range, hrange, h⟩ := exists_ok_of_bind h
    rw [PredicateScope.applied, hrange]
    cases operator with
    | beforeDate =>
      obtain rfl := Except.ok.inj h
      exact ⟨_, rfl, saysOf_compare hexpr .less _⟩
    | afterDate =>
      obtain rfl := Except.ok.inj h
      exact ⟨_, rfl, saysOf_compare hexpr .greater _⟩
    | _ => cases hshape
  | phrase hshape | bounds hshape =>
    obtain ⟨range, hrange, h⟩ := exists_ok_of_bind h
    obtain rfl := Except.ok.inj h
    rw [PredicateScope.applied, hrange]
    refine ⟨_, rfl, ?_⟩
    cases operator <;> cases hshape <;> exact saysOf_between hexpr _ range
  | query hshape =>
    obtain ⟨statement, hstatement, h⟩ := exists_ok_of_bind h
    obtain ⟨hwidth, h⟩ := not_and_ok_of_check h
    obtain rfl := Except.ok.inj h
    obtain ⟨ts, hts, hbalanced⟩ := hnested _ rfl statement hstatement
    -- A statement of one column starts with `select`; the rest of it is the text of the test.
    have hselect : statement.select ≠ [] := by
      intro hnil
      rw [hnil] at hwidth
      exact hwidth (by simp)
    obtain ⟨inner, rfl, hinner⟩ := exists_inner_of_render hselect hts hbalanced
    have hfolded : (statement.render scope.dialect .compact).folded? =
        some (.word "select" :: inner.map Symbol.fold) := by
      rw [Fragment.folded?, hts]
      rfl
    refine ⟨.test (.inRows operator.isNegated (inner.map Symbol.fold)) x, ?_, ?_⟩
    · rw [PredicateScope.applied, hstatement]
      simp [Except.toOption, hfolded]
    · cases operator <;> cases hshape <;> exact saysOf_nested hexpr _ hts hinner

end Leaves

section Truth

variable {V : Type} (db : ScalarSemantics V) (row : List String → Option V) (x : Expression)

/-- A value is among several values, or is the only one. -/
private theorem truth_membership (negated : Bool) (values : List Json) :
    (Expression.membership negated x values).truth db row =
      (db.member (x.value db row) (values.map db.bound)).negate negated := by
  unfold Expression.membership
  split
  · rename_i v
    have hsingle : db.member (x.value db row) [db.bound v] =
        Semantics.test (db.compare .equal) (x.value db row) (db.bound v) := Truth.or_no _
    rw [List.map_singleton, hsingle]
    cases negated with
    | true => exact Expression.truth_differs ..
    | false => exact Expression.truth_compare ..
  · exact Expression.truth_test ..

/-- The value of a pattern is its text with the wildcards around it. -/
private theorem value_pattern (wildcards : Bool × Bool) (v : Json) :
    (Expression.pattern wildcards v).value db row =
      db.toSemantics.pattern wildcards (db.bound v) := by
  obtain ⟨before, after⟩ := wildcards
  cases before <;> cases after <;> rfl

/-- Comparisons with several values hold together where each of them does. -/
private theorem truth_comparisons (comparison : Sql.Comparison) (v : Json) (vs : List Json) :
    (Expression.combine .and (.binary (.compare comparison) x (.atom (.bound v)))
      (vs.map fun v => .binary (.compare comparison) x (.atom (.bound v)))).truth db row =
      .all ((v :: vs).map fun v =>
        Semantics.test (db.compare comparison) (x.value db row) (db.bound v)) := by
  have htruth := truth_combine db row .all
    (.binary (.compare comparison) x (.atom (.bound v)))
    (vs.map fun v => .binary (.compare comparison) x (.atom (.bound v)))
  refine htruth.trans ?_
  simp [Expression.truth_compare, Connective.truth, Expression.value, Sql.Atom.value,
    Function.comp_def]

/-- That none of several texts is matched is the negation of a match of one of them. -/
private theorem truth_patterns (negated : Bool) (wildcards : Bool × Bool) (text : String)
    (texts : List String) :
    (Expression.combine (if negated then .and else .or)
      (.binary (.like negated) x (.pattern wildcards (.string text)))
      (texts.map fun text =>
        .binary (.like negated) x (.pattern wildcards (.string text)))).truth db row =
      (Truth.any ((text :: texts).map fun text =>
        Semantics.test db.like (x.value db row)
          (db.toSemantics.pattern wildcards (db.bound (.string text))))).negate negated := by
  cases negated with
  | true =>
    have htruth := truth_combine db row .all
      (.binary (.like true) x (.pattern wildcards (.string text)))
      (texts.map fun text => .binary (.like true) x (.pattern wildcards (.string text)))
    refine htruth.trans ?_
    rw [Truth.negate, if_pos rfl, Truth.not_any]
    simp [Expression.truth_like, Connective.truth, Truth.negate, value_pattern, Function.comp_def]
  | false =>
    have htruth := truth_combine db row .any
      (.binary (.like false) x (.pattern wildcards (.string text)))
      (texts.map fun text => .binary (.like false) x (.pattern wildcards (.string text)))
    refine htruth.trans ?_
    simp [Expression.truth_like, Connective.truth, Truth.negate, value_pattern, Function.comp_def]

/-- A statement that is written like a selection has the rows of its symbols. -/
private theorem nestedRows_of_folded? {scope : PredicateScope} {statement : Sql.Statement}
    {symbols : List Symbol}
    (h : (statement.render scope.dialect .compact).folded? = some symbols) :
    scope.nestedRows db.toSemantics statement = db.rows symbols := by
  obtain ⟨ts, hts, rfl⟩ := Option.map_eq_some_iff.1 h
  rw [PredicateScope.nestedRows, hts, db.rows_fold]
  rfl

/-- An operator applied to an expression says of its value what the leaf says of it. -/
theorem leafTruth_of_applied {scope : PredicateScope} {operator : Operator} {e : Expression}
    {payload : Payload} (htakes : operator.Takes payload)
    (h : scope.applied operator x payload = some e) :
    scope.leafTruth db.toSemantics operator (x.value db row) payload = .ok (e.truth db row) := by
  -- By the payload, as both the expression and the truth of the leaf are. A payload that is
  -- interpreted first, as a date or a statement, has been interpreted in both.
  cases htakes with
  | none hshape =>
    obtain rfl := Option.some.inj h
    rw [Expression.truth_test]
    cases operator <;> cases hshape <;> cases x.value db row <;> rfl
  | @values values hshape hvalues =>
    obtain ⟨v, vs, rfl⟩ := List.exists_cons_of_ne_nil hvalues
    rw [PredicateScope.applied] at h
    rw [PredicateScope.leafTruth, PredicateScope.holds]
    cases horder : operator.order? with
    | none =>
      simp only [horder] at h
      obtain rfl := Option.some.inj h
      rw [truth_membership]
      rfl
    | some comparison =>
      simp only [horder] at h
      obtain rfl := Option.some.inj h
      have hnegated : operator.isNegated = false := by
        cases operator <;> first | rfl | cases horder
      rw [truth_comparisons, hnegated]
      rfl
  | @strings texts hshape htexts =>
    obtain ⟨text, texts, rfl⟩ := List.exists_cons_of_ne_nil htexts
    obtain rfl := Option.some.inj h
    exact congrArg Except.ok (truth_patterns db row x operator.isNegated operator.wildcards text
      texts).symm
  | @date text hshape =>
    obtain ⟨range, hrange, h⟩ := exists_ok_of_toOption_bind h
    rw [PredicateScope.leafTruth, PredicateScope.holds, hrange]
    cases operator with
    | beforeDate | afterDate =>
      obtain rfl := Option.some.inj h
      rw [Expression.truth_compare]
      rfl
    | _ => cases hshape
  | phrase hshape | bounds hshape =>
    obtain ⟨range, hrange, h⟩ := exists_ok_of_toOption_bind h
    obtain rfl := Option.some.inj h
    rw [PredicateScope.leafTruth, PredicateScope.holds, hrange, Expression.truth_test]
    rfl
  | @query query hshape =>
    obtain ⟨statement, hstatement, h⟩ := exists_ok_of_toOption_bind h
    split at h
    · rename_i rest hfolded
      obtain rfl := Option.some.inj h
      rw [PredicateScope.leafTruth, PredicateScope.holds, hstatement, Expression.truth_test,
        Sql.Test.truth, ← nestedRows_of_folded? db hfolded]
      rfl
    · cases h

end Truth

/-- The predicate of a leaf is read as its operator applied to the expression of the member exactly
where this binds more tightly than comparisons do. -/
theorem exists_applied_iff {scope : PredicateScope} {operator : Operator} {path : String}
    {sql expr : Fragment} {x : Expression} {payload : Payload} (hexpr : expr.expression? = some x)
    (htakes : operator.Takes payload)
    (hnested : ∀ query, payload = .query query → scope.ReadsNested query)
    (h : scope.leaf operator path payload expr = .ok sql) :
    ∃ e, scope.applied operator x payload = some e ∧
      (sql.expression? = some e ↔ comparisonRank < x.rank) := by
  obtain ⟨hspells, hwell⟩ := Fragment.expression?_eq_some_iff.1 hexpr
  obtain ⟨e, happlied, hwritten⟩ := exists_applied_of_leaf hspells htakes hnested h
  refine ⟨e, happlied, ?_⟩
  rw [Fragment.expression?_eq_some_iff, and_iff_right hwritten.spells, hwritten.wellFormed_iff hwell]

/-- Over an operand, the predicate of a leaf is read as an expression that says what the leaf says
of the value of the operand. -/
theorem exists_expression_of_leaf {scope : PredicateScope} {operator : Operator} {path : String}
    {sql expr : Fragment} {x : Expression} {payload : Payload} (hexpr : expr.expression? = some x)
    (hrank : comparisonRank < x.rank) (htakes : operator.Takes payload)
    (hnested : ∀ query, payload = .query query → scope.ReadsNested query)
    (h : scope.leaf operator path payload expr = .ok sql) :
    ∃ e, sql.expression? = some e ∧
      ∀ {V : Type} (db : ScalarSemantics V) (row : List String → Option V),
        scope.leafTruth db.toSemantics operator (x.value db row) payload =
          .ok (e.truth db row) := by
  obtain ⟨e, happlied, hread⟩ := exists_applied_iff hexpr htakes hnested h
  exact ⟨e, hread.2 hrank, fun db row => leafTruth_of_applied db row x htakes happlied⟩

end MetricLayer
