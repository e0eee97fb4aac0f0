import MetricLayer.Proofs.Filter.Predicate
import MetricLayer.Proofs.Filter.Truth

/-!
# Predicates of filter trees

The predicate of a filter is read as a condition with the truth of the filter, and the conditions of
a statement as one with the truth of all its filters (`PredicateScope.truth_predicate`).

A group of one filter has no parentheses, and neither have the conditions of a statement. Every
predicate is a phrase of its own, so nothing around it changes how it is read.
-/

namespace MetricLayer

open Sql (Fragment Condition Semantics Symbol Phrase Statement Token)

/-! ## Predicates of trees -/

/-- A qualified name. Its parts are quoted, so none of them is the wildcard. -/
structure Sql.Fragment.IsColumn (f : Fragment) (d : Sql.Dialect) (parts : List String) : Prop where
  sql : f.sql = d.quotePath parts
  bindings : f.bindings = []
  nonempty : parts ≠ []
  quoted : "*" ∉ parts

/-- A column is read as the path of its parts. -/
theorem Sql.Fragment.IsColumn.symbols? {f : Fragment} {d : Sql.Dialect}
    {parts : List String} (h : f.IsColumn d parts) :
    f.symbols? = some (Sql.pathSymbols parts) := by
  refine Fragment.symbols?_of_bindings_eq_nil ?_ (Sql.mark_notMem_pathSymbols parts) h.bindings
  rw [h.sql]
  exact Sql.symbols?_quotePath d h.nonempty h.quoted

/-- Every member that is found stands for the column of the given path. -/
def PredicateScope.MapsToColumns (scope : PredicateScope) (member : String → Result Fragment)
    (operand : String → List String) : Prop :=
  ∀ path expr, member path = .ok expr → expr.IsColumn scope.dialect (operand path)

/-- The statements of all queries that are nested in some leaves can be read. -/
def PredicateScope.ReadsLeaves (scope : PredicateScope) (leaves : List FilterLeaf) : Prop :=
  ∀ l ∈ leaves, ∀ query, l.check = .ok (.query query) → scope.ReadsNested query

section Trees

variable {V : Type} {db : Semantics V} {row : List String → Option V}
  {assignment : String → Option V} {scope : PredicateScope} {member : String → Result Fragment}
  {operand : String → List String}

mutual

/-- The predicate of a filter says what the filter says. -/
private theorem says_of_predicate (hmember : scope.MapsToColumns member operand)
    (hrow : ∀ path expr, member path = .ok expr → row (operand path) = assignment path) :
    {f : Filter} → {sql : Fragment} → scope.ReadsLeaves f.leaves →
      scope.predicate member f = .ok sql →
      ∃ t, sql.Says db row t ∧ f.truth scope db assignment = .ok t
  | .leaf l, sql, hnested, h => by
    obtain ⟨payload, expr, hpayload, hexpr, h⟩ := PredicateScope.predicate_leaf_eq_ok_iff.1 h
    have hcolumn := hmember l.member expr hexpr
    have hquery : ∀ query, payload = .query query → scope.ReadsNested query := by
      rintro query rfl
      exact hnested l (by simp [Filter.leaves]) query hpayload
    obtain ⟨t, hsays, ht⟩ := says_of_leaf db row hcolumn.nonempty hcolumn.symbols?
      (FilterLeaf.takes_of_check hpayload) hquery h
    refine ⟨t, hsays, ?_⟩
    rw [Filter.truth, hpayload, ← hrow _ _ hexpr]
    exact ht
  | .group connective children, sql, hnested, h => by
    obtain ⟨parts, hparts, hne, rfl⟩ := PredicateScope.predicate_group_eq_ok_iff.1 h
    rw [Filter.leaves] at hnested
    obtain ⟨ts, hsays, hts⟩ := says_of_predicates hmember hrow hnested hparts
    refine ⟨connective.truth ts, says_combine connective hne hsays, ?_⟩
    rw [Filter.truth, hts]
    rfl

/-- The predicates of several filters say what the filters say one by one. -/
private theorem says_of_predicates (hmember : scope.MapsToColumns member operand)
    (hrow : ∀ path expr, member path = .ok expr → row (operand path) = assignment path) :
    {fs : List Filter} → {parts : List Fragment} → scope.ReadsLeaves (Filter.leavesAll fs) →
      scope.predicates member fs = .ok parts →
      ∃ ts, List.Forall₂ (Fragment.Says db row) parts ts ∧
        Filter.truths scope db assignment fs = .ok ts
  | [], parts, _, h => by
    obtain rfl := Except.ok.inj h
    exact ⟨[], .nil, rfl⟩
  | child :: rest, parts, hnested, h => by
    rw [Filter.leavesAll, PredicateScope.ReadsLeaves, List.forall_mem_append] at hnested
    obtain ⟨first, others, hfirst, hothers, rfl⟩ := PredicateScope.predicates_cons_eq_ok_iff.1 h
    obtain ⟨t, hsays, ht⟩ := says_of_predicate hmember hrow hnested.1 hfirst
    obtain ⟨ts, hsaysAll, hts⟩ := says_of_predicates hmember hrow hnested.2 hothers
    refine ⟨t :: ts, .cons hsays hsaysAll, ?_⟩
    rw [Filter.truths, ht, hts]
    rfl

end

end Trees

/-- Only no filters have no predicates. -/
private theorem eq_nil_of_predicates {scope : PredicateScope} {member : String → Result Fragment}
    {fs : List Filter} (h : scope.predicates member fs = .ok []) : fs = [] := by
  rw [← List.length_eq_zero_iff, ← PredicateScope.length_of_predicates h, List.length_nil]

/-! ## Conditions of a statement -/

/-- The conditions on rows with the word before them. -/
def Sql.Statement.filterTokens (st : Statement) : List Token :=
  Sql.listClause .filter [.space, .keyword .both, .space] (st.filters.map fun f => [.fragment f])

/-- The conditions on rows stand together in a statement. -/
private theorem exists_tokens_of_filters (st : Statement) (l : Sql.Layout) :
    ∃ before after, st.tokens l = before ++ Sql.clause l st.filterTokens ++ after := by
  obtain ⟨distinct, label, select, source, joins, filters, groupBy, orderBy, limit, offset⟩ := st
  rw [Statement.tokens, List.append_assoc, List.append_assoc, ← List.cons_append,
    ← List.cons_append]
  exact ⟨_, _, rfl⟩

/-- Conditions with a word between them have the text and the values of fragments joined by it. -/
private theorem renderAll_interleave (d : Sql.Dialect) (fs : List Fragment) :
    let f := Token.renderAll d (Token.interleave [.space, .keyword .both, .space]
      (fs.map fun f => [.fragment f]))
    f.sql = (Fragment.join " and " fs).sql ∧ f.bindings = (Fragment.join " and " fs).bindings := by
  have hempty : (Token.renderAll d []).sql = "" ∧ (Token.renderAll d []).bindings = [] := ⟨rfl, rfl⟩
  induction fs with
  | nil => exact ⟨rfl, rfl⟩
  | cons f rest ih =>
    cases rest with
    | nil => simp [Token.interleave, Token.render, Fragment.join, hempty]
    | cons g rest =>
      -- The word and the spaces around it are three tokens, and one text between fragments.
      have hand (text : String) : " " ++ ("and" ++ (" " ++ text)) = " and " ++ text := by
        rw [← String.append_assoc, ← String.append_assoc]
        rfl
      rw [List.map_cons, List.map_cons, Token.interleave, Fragment.join]
      · simp only [List.map_cons] at ih
        simp [Token.render, ih, Sql.Keyword.text, String.append_assoc, hand]
        rfl
      · simp
      · simp

/-- The conditions of a statement, joined by `and` without parentheses, say that all of them
hold. -/
private theorem exists_condition_of_filters {V : Type} {db : Semantics V}
    {row : List String → Option V} (d : Sql.Dialect) {st : Statement} {ts : List Truth}
    (hne : st.filters ≠ []) (h : List.Forall₂ (Fragment.Says db row) st.filters ts) :
    ∃ us c, (Token.renderAll d st.filterTokens).symbols? = some (.word "where" :: us) ∧
      Sql.condition? us = some c ∧ c.truth db row = Truth.all ts := by
  obtain ⟨tss, cs, htss, hphrases, rfl⟩ := exists_phrases h
  have hjoin := Fragment.symbols?_join (by decide : Sql.Spaced " and " [.word "and"]) htss
  have htokens : st.filterTokens = .keyword .filter :: .space ::
      Token.interleave [.space, .keyword .both, .space]
        (st.filters.map fun f => [.fragment f]) := by
    rw [Statement.filterTokens, Sql.listClause, if_neg (by simpa using hne)]
  have hread : (Token.renderAll d st.filterTokens).symbols? =
      some (.word "where" :: [.word "and"].intercalate tss) := by
    obtain ⟨hsql, hbindings⟩ := renderAll_interleave d st.filters
    rw [htokens, symbols?_renderAll_keyword d rfl, Fragment.symbols?, hsql, hbindings]
    exact congrArg _ hjoin
  -- There is a first condition, since a clause without conditions has no word.
  cases hphrases with
  | nil => exact absurd (List.forall₂_nil_right_iff.1 htss) hne
  | cons hphrase hphrases =>
    exact ⟨_, _, hread, Sql.condition?_conjunction hphrase hphrases, Condition.truth_all ..⟩

/-- The predicate of a filter is read as a condition with the truth of the filter, whatever values
its members have, and the conditions of a statement are read together as one with the truth of all
its filters. Members stand for qualified names, and the statements of nested queries can be read. -/
theorem PredicateScope.truth_predicate {V : Type} (db : Semantics V)
    (row : List String → Option V) (assignment : String → Option V) (scope : PredicateScope)
    (member : String → Result Fragment) (operand : String → List String)
    (hmember : scope.MapsToColumns member operand)
    (hrow : ∀ path expr, member path = .ok expr → row (operand path) = assignment path) :
    (∀ f sql, scope.ReadsLeaves f.leaves → scope.predicate member f = .ok sql →
      ∃ c, sql.condition? = some c ∧ f.truth scope db assignment = .ok (c.truth db row)) ∧
    ∀ fs (st : Statement) l, scope.ReadsLeaves (Filter.leavesAll fs) → fs ≠ [] →
      scope.predicates member fs = .ok st.filters →
      ∃ before after us c ts,
        st.tokens l = before ++ Sql.clause l st.filterTokens ++ after ∧
        (Token.renderAll scope.dialect st.filterTokens).symbols? = some (.word "where" :: us) ∧
        Sql.condition? us = some c ∧ Filter.truths scope db assignment fs = .ok ts ∧
        c.truth db row = Truth.all ts := by
  constructor
  · intro f sql hnested h
    obtain ⟨t, hsays, ht⟩ := says_of_predicate hmember hrow hnested h
    obtain ⟨c, hc, rfl⟩ := hsays.condition?
    exact ⟨c, hc, ht⟩
  · intro fs st l hnested hne h
    obtain ⟨ts, hsays, hts⟩ := says_of_predicates hmember hrow hnested h
    have hfilters : st.filters ≠ [] := by
      intro hnil
      rw [hnil] at h
      exact hne (eq_nil_of_predicates h)
    obtain ⟨us, c, hread, hc, ht⟩ := exists_condition_of_filters scope.dialect hfilters hsays
    obtain ⟨before, after, htokens⟩ := exists_tokens_of_filters st l
    exact ⟨before, after, us, c, ts, htokens, hread, hc, hts, ht⟩

/-! ### A filter over orders -/

/-- Patterns in which `%` stands for any text and `_` for any character. -/
private def matchesPattern : (pattern text : List Char) → Bool
  | [], text => text.isEmpty
  | '%' :: pattern, text => text.tails.any (matchesPattern pattern ·)
  | '_' :: pattern, text => !text.isEmpty && matchesPattern pattern text.tail
  | c :: pattern, text =>
    text.head?.any (·.toLower = c.toLower) && matchesPattern pattern text.tail

/-- The order of two values of the same kind. -/
private def jsonOrder? : Json → Json → Option Ordering
  | .number (.int m), .number (.int n) => some (compare m n)
  | .string s, .string t => some (compare s t)
  | _, _ => none

/-- A database of JSON values with two shops. -/
private def shopDatabase : Semantics Json where
  bound := some
  text := .string
  compare
    | .equal, a, b => a = b
    | .less, a, b => jsonOrder? a b = some .lt
    | .atMost, a, b => jsonOrder? a b ∈ [some .lt, some .eq]
    | .greater, a, b => jsonOrder? a b = some .gt
    | .atLeast, a, b => jsonOrder? a b ∈ [some .gt, some .eq]
  like
    | .string text, .string pattern => matchesPattern pattern.toList text.toList
    | _, _ => false
  concat
    | .string s, .string t => .string (s ++ t)
    | a, _ => a
  rows _ := [some (.number (.int 1)), some (.number (.int 2))]

/-- Orders of shops with a name of some length. -/
private def orderScope : PredicateScope where
  dialect := .postgres
  now := ⟨⟨2024, 1, 1⟩, .midnight⟩
  nested _ := .ok {
    select := [⟨.ofColumn "s" "id" "\"s\".\"id\"", none⟩]
    source := some (.table "shops" (some "s"))
    filters := [.ofText "length(\"s\".\"name\") > " ++ .ofValue (.number (.int 3))] }

/-- A column of an order. -/
private def orderColumn (path : String) : Result Fragment :=
  if path = "*" then .error (.memberNotFound path .malformed)
  else .ok (.ofColumn "o" path (Sql.Dialect.postgres.quotePath ["o", path]))

/-- An order without a note. -/
private def paidOrder : List String → Option Json
  | [_, "status"] => some (.string "paid")
  | [_, "total"] => some (.number (.int 20))
  | [_, "made"] => some (.string "2024-01-15T08:00:00.000")
  | [_, "shop"] => some (.number (.int 2))
  | _ => none

private def settledOrders : Filter :=
  .group .all [
    .group .any [
      .leaf ⟨.equals, "status", some (.array [.string "sent", .string "paid"])⟩,
      .group .all [.leaf ⟨.notContains, "note", some (.array [.string "test", .string "void"])⟩],
      .leaf ⟨.greater, "total", some (.number (.int 100))⟩],
    .leaf ⟨.inDateRange, "made", some (.array [.string "2024-01-01", .string "2024-01-31"])⟩,
    .leaf ⟨.inQuery, "shop", some (.object [("dimensions", .array [.string "shops.id"])])⟩]

/-- A group of one filter, several texts of which none is matched, a range and a nested query are
each read as what they say, and so is the filter next to another one. -/
theorem PredicateScope.truth_predicate_settledOrders :
    (∃ sql, orderScope.predicate orderColumn settledOrders = .ok sql ∧
      ∃ c, sql.condition? = some c ∧
        settledOrders.truth orderScope shopDatabase (fun path => paidOrder ["o", path]) =
          .ok (c.truth shopDatabase paidOrder)) ∧
    ∃ (fs : List Filter) (st : Statement), orderScope.predicates orderColumn fs = .ok st.filters ∧
      fs = [settledOrders, .leaf ⟨.notSet, "note", none⟩] ∧
      ∃ before after us c ts,
        st.tokens .compact = before ++ Sql.clause .compact st.filterTokens ++ after ∧
        (Token.renderAll orderScope.dialect st.filterTokens).symbols? = some (.word "where" :: us) ∧
        Sql.condition? us = some c ∧
        Filter.truths orderScope shopDatabase (fun path => paidOrder ["o", path]) fs = .ok ts ∧
        c.truth shopDatabase paidOrder = Truth.all ts := by
  have hmember : orderScope.MapsToColumns orderColumn (fun path => ["o", path]) := by
    intro path expr h
    unfold orderColumn at h
    split at h
    · cases h
    · rename_i hpath
      obtain rfl := Except.ok.inj h
      exact ⟨by simp [Fragment.sql, Fragment.ofColumn, Sql.Piece.sql, orderScope], rfl, by simp,
        by simp [Ne.symm hpath]⟩
  have hnested (leaves : List FilterLeaf) : orderScope.ReadsLeaves leaves := by
    intro _ _ query _ statement h
    obtain rfl := Except.ok.inj h
    exact ⟨_, rfl, by decide⟩
  obtain ⟨htree, hlist⟩ := PredicateScope.truth_predicate shopDatabase paidOrder
    (fun path => paidOrder ["o", path]) orderScope orderColumn (fun path => ["o", path]) hmember
    (fun _ _ _ => rfl)
  refine ⟨⟨_, rfl, htree settledOrders _ (hnested _) rfl⟩, _, { filters := _ }, rfl, rfl, ?_⟩
  exact hlist [settledOrders, .leaf ⟨.notSet, "note", none⟩] _ .compact (hnested _) (by simp) rfl

end MetricLayer
