import MetricLayer.Filter.Predicate
import MetricLayer.Proofs.Filter.Payload
import MetricLayer.Proofs.Sql.Phrase
import MetricLayer.Proofs.Sql.Statement

/-!
# Truth of filters

What a filter says of the values of its members, in three-valued logic, and that the predicate of a
leaf says the same to a database that reads the text with the usual precedence.

- `Filter.truth` — the truth of a filter tree, evaluated directly;
- `Sql.Fragment.Says` — a fragment is read as a condition wherever a predicate may stand, and the
  condition has a given truth;
- `says_combine` — parts joined by a connective say what the connective says of them;
- `says_of_leaf` — the predicate of a leaf says what the leaf says.
-/

namespace MetricLayer

open Sql (Fragment Condition Semantics Symbol Phrase Statement Token)

/-! ## Truth of a tree -/

/-- Whether an operator denies what another one says. -/
def Operator.isNegated : Operator → Bool
  | .notEquals | .notOneOf | .notSet | .notContains | .notStartsWith | .notEndsWith
  | .notInDateRange | .notInQuery => true
  | _ => false

/-- The order that an operator asks for between a value and each of the listed ones. -/
def Operator.order? : Operator → Option Sql.Comparison
  | .greater => some .greater
  | .greaterOrEqual => some .atLeast
  | .less => some .less
  | .lessOrEqual => some .atMost
  | _ => none

/-- Whether any text may stand before and after the text that an operator looks for. -/
def Operator.wildcards : Operator → Bool × Bool
  | .contains | .notContains => (true, true)
  | .startsWith | .notStartsWith => (false, true)
  | .endsWith | .notEndsWith => (true, false)
  | _ => (false, false)

/-- The truth of a group, given those of its filters. -/
def Connective.truth : Connective → List Truth → Truth
  | .all => Truth.all
  | .any => Truth.any

/-- The text with wildcards around it. -/
def Sql.Semantics.pattern {V : Type} (db : Semantics V) (wildcards : Bool × Bool)
    (text : Option V) : Option V :=
  let wildcard := some (db.text "%")
  let start := if wildcards.1 then db.append wildcard text else text
  if wildcards.2 then db.append start wildcard else start

section Truth

variable {V : Type} (scope : PredicateScope) (db : Semantics V)

/-- The rows of a nested statement. -/
def PredicateScope.nestedRows (statement : Statement) : List (Option V) :=
  ((statement.render scope.dialect .compact).symbols?.map db.rows).getD []

/-- What an operator with a payload says of a value, its negation left aside. -/
def PredicateScope.holds (operator : Operator) (x : Option V) : Payload → Result Truth
  | .none => .ok (.ofBool x.isSome)
  | .values values =>
    match operator.order? with
    | some comparison =>
      .ok (.all (values.map fun v => Semantics.test (db.compare comparison) x (db.bound v)))
    | none => .ok (db.member x (values.map db.bound))
  | .strings texts =>
    .ok (.any (texts.map fun text =>
      Semantics.test db.like x (db.pattern operator.wildcards (db.bound (.string text)))))
  | .date text => do
    let range ← Calendar.parseDate text scope.now
    if operator = .afterDate then
      return Semantics.test (db.compare .greater) x (db.bound (.string range.last.text))
    else return Semantics.test (db.compare .less) x (db.bound (.string range.first.text))
  | .phrase text => do
    let range ← Calendar.parseDate text scope.now
    return db.between x (db.bound (.string range.first.text)) (db.bound (.string range.last.text))
  | .bounds first last => do
    let range ← Calendar.parseBounds first last scope.now
    return db.between x (db.bound (.string range.first.text)) (db.bound (.string range.last.text))
  | .query query => do
    let statement ← scope.nested query
    return db.member x (scope.nestedRows db statement)

/-- The truth of a leaf. -/
def PredicateScope.leafTruth (operator : Operator) (x : Option V) (payload : Payload) :
    Result Truth := do
  let t ← scope.holds db operator x payload
  return t.negate operator.isNegated

variable (assignment : String → Option V)

mutual

/-- The truth of a filter, given the value of each member. -/
def Filter.truth : Filter → Result Truth
  | .leaf l => do
    let payload ← l.check
    scope.leafTruth db l.operator (assignment l.member) payload
  | .group connective children => do
    return connective.truth (← Filter.truths children)
termination_by structural f => f

/-- The truths of several filters. -/
def Filter.truths : List Filter → Result (List Truth)
  | [] => .ok []
  | child :: rest => do
    let first ← Filter.truth child
    let others ← Filter.truths rest
    return first :: others
termination_by structural fs => fs

end

end Truth

/-! ## Fragments that are phrases -/

/-- The condition that a fragment is read as. -/
def Sql.Fragment.condition? (f : Fragment) : Option Condition := f.symbols?.bind Sql.condition?

section Fragments

variable {V : Type} (db : Semantics V) (row : List String → Option V)

/-- The fragment is read as a condition wherever a predicate may stand, and this condition has the
given truth. -/
def Sql.Fragment.Says (f : Fragment) (t : Truth) : Prop :=
  ∃ ts c, f.symbols? = some ts ∧ Phrase ts c ∧ c.truth db row = t

variable {db row}

private theorem says_of_phrase {f : Fragment} {ts us : List Symbol} {c : Condition} {t : Truth}
    (hread : f.symbols? = some ts) (hphrase : Phrase us c) (hts : ts = us)
    (ht : c.truth db row = t) : f.Says db row t :=
  ⟨ts, c, hread, hts ▸ hphrase, ht⟩

/-- A fragment that says something is read as a condition on its own. -/
theorem Sql.Fragment.Says.condition? {f : Fragment} {t : Truth} (h : f.Says db row t) :
    ∃ c, f.condition? = some c ∧ c.truth db row = t := by
  obtain ⟨ts, c, hts, hphrase, ht⟩ := h
  refine ⟨c, ?_, ht⟩
  rw [Fragment.condition?, hts]
  exact Sql.condition?_phrase hphrase

/-- Several fragments are read as phrases one by one. -/
theorem exists_phrases {fs : List Fragment} {ts : List Truth}
    (h : List.Forall₂ (Fragment.Says db row) fs ts) :
    ∃ tss cs, List.Forall₂ (fun f us => f.symbols? = some us) fs tss ∧
      List.Forall₂ Phrase tss cs ∧ cs.map (·.truth db row) = ts := by
  induction h with
  | nil => exact ⟨[], [], .nil, .nil, rfl⟩
  | cons hf _ ih =>
    obtain ⟨us, c, hus, hphrase, rfl⟩ := hf
    obtain ⟨tss, cs, htss, hphrases, rfl⟩ := ih
    exact ⟨us :: tss, c :: cs, .cons hus htss, .cons hphrase hphrases, rfl⟩

/-- A connective stands between spaces. -/
theorem Connective.spaced (connective : Connective) :
    Sql.Spaced (" " ++ connective.name ++ " ") [.word connective.name] := by
  cases connective <;> decide

/-- Parts joined by a connective say what the connective says of them. -/
theorem says_combine (connective : Connective) {fs : List Fragment} {ts : List Truth}
    (hne : fs ≠ []) (h : List.Forall₂ (Fragment.Says db row) fs ts) :
    (Predicate.combine (" " ++ connective.name ++ " ") fs).Says db row (connective.truth ts) := by
  obtain ⟨tss, cs, htss, hphrases, rfl⟩ := exists_phrases h
  have hjoin := Fragment.symbols?_parenthesize (Fragment.symbols?_join connective.spaced htss)
  cases hphrases with
  | nil =>
    cases htss
    exact absurd rfl hne
  | cons hphrase hphrases =>
    -- Only a part that stands alone has no parentheses around it.
    unfold Predicate.combine
    split
    · cases htss with
      | cons hf hrest =>
        cases hrest
        cases hphrases
        refine ⟨_, _, hf, hphrase, ?_⟩
        cases connective with
        | all => exact (Truth.and_yes _).symm
        | any => exact (Truth.or_no _).symm
    · cases connective with
      | all => exact ⟨_, _, hjoin, Sql.phrase_conjunction hphrase hphrases, Condition.truth_all ..⟩
      | any => exact ⟨_, _, hjoin, Sql.phrase_disjunction hphrase hphrases, Condition.truth_any ..⟩

end Fragments

/-! ## Predicates of leaves -/

/-- The statement of a nested query can be read and closes the parentheses that it opens. -/
def PredicateScope.ReadsNested (scope : PredicateScope) (query : Query) : Prop :=
  ∀ statement, scope.nested query = .ok statement →
    ∃ ts, (statement.render scope.dialect .compact).symbols? = some ts ∧ Sql.Balanced ts

private theorem spaced_in (negated : Bool) :
    Sql.Spaced (if negated then " not in " else " in ")
      ((if negated then [.word "not"] else []) ++ [.word "in"]) := by
  cases negated <;> decide

/-- The text around a matched value, one piece after the other. -/
private theorem patternMatch_eq (d : Sql.Dialect) (f : Fragment) (p : Sql.PatternMatch) (v : Json) :
    d.patternMatch f p v =
      f ++ .ofText (" " ++ (if p.negated then "not " else "") ++ "ilike" ++ " " ++
        (if p.leadingWildcard then "'%' " ++ "||" ++ " " else "")) ++ .ofValue v ++
      .ofText (if p.trailingWildcard then " " ++ "||" ++ " '%'" else "") := by
  rw [Sql.Dialect.patternMatch, Fragment.wrap_eq]
  change (⟨_, _⟩ : Fragment) = ⟨_, _⟩
  simp [Sql.Dialect.concatOperator, Sql.Dialect.patternOperator]

/-- The wildcard behind a text is read after it. -/
private theorem symbols?_append_wildcard (after : Bool) {f : Fragment} {ts : List Symbol}
    (h : f.symbols? = some ts) :
    (f ++ Fragment.ofText (if after then " " ++ "||" ++ " '%'" else "")).symbols? =
      some (ts ++ if after then [.operator "||", .literal "%"] else []) := by
  cases after with
  | true =>
    rw [Fragment.symbols?_append_of_starts h (by decide)]
    rfl
  | false =>
    have hempty : f ++ Fragment.ofText "" = f := by
      change (⟨_, _⟩ : Fragment) = ⟨_, _⟩
      simp [Fragment.ofText]
    simpa [hempty] using h

/-- What is selected follows the first word of a statement. -/
private theorem exists_tokens_of_select {st : Statement} (h : st.select ≠ []) :
    ∃ rest, st.tokens .compact = .keyword .select :: .space :: rest := by
  obtain ⟨distinct, label, select, source, joins, filters, groupBy, orderBy, limit, offset⟩ := st
  obtain ⟨item, items, rfl⟩ := List.exists_cons_of_ne_nil h
  rw [Statement.tokens]
  cases distinct with
  | true => exact ⟨_, rfl⟩
  | false =>
    cases items with
    | nil => exact ⟨_, rfl⟩
    | cons next items => exact ⟨_, rfl⟩

/-- A keyword is read apart from what stands after the space behind it. -/
theorem symbols?_renderAll_keyword (d : Sql.Dialect) {word : Sql.Keyword}
    (hword : (Fragment.ofText word.text).symbols? = some [.word word.text]) (rest : List Token) :
    (Token.renderAll d (.keyword word :: .space :: rest)).symbols? =
      (Token.renderAll d rest).symbols?.map (.word word.text :: ·) := by
  have hspace : (Fragment.ofText " " ++ Token.renderAll d rest).symbols? =
      (Token.renderAll d rest).symbols?.map ([] ++ ·) :=
    Fragment.symbols?_append_of_ends rfl (by decide) _
  have hstarts : Sql.StartsApart (Fragment.ofText " " ++ Token.renderAll d rest).sql := by
    rw [Fragment.sql_append, Fragment.sql_ofText]
    exact Sql.StartsApart.append (by decide) _
  rw [Token.renderAll_cons, Token.renderAll_cons, Token.render, Token.render,
    Fragment.symbols?_append_of_starts hword hstarts, hspace, Option.map_map]
  rfl

/-- A statement starts with its first word. -/
theorem exists_inner_of_render {st : Statement} {d : Sql.Dialect} {ts : List Symbol}
    (h : st.select ≠ []) (hts : (st.render d .compact).symbols? = some ts)
    (hbalanced : Sql.Balanced ts) : ∃ inner, ts = .word "select" :: inner ∧ Sql.Balanced inner := by
  obtain ⟨rest, hrest⟩ := exists_tokens_of_select h
  rw [Statement.render, hrest, symbols?_renderAll_keyword d rfl] at hts
  obtain ⟨inner, -, rfl⟩ := Option.map_eq_some_iff.1 hts
  exact ⟨inner, rfl, hbalanced⟩

/-! ### Symbols of predicates -/

section Symbols

variable {expr : Fragment} {ts : List Symbol} (hexpr : expr.symbols? = some ts)

/-- An operator stands between spaces. -/
theorem spaced_operator {symbol : String} {comparison : Sql.Comparison}
    (h : Sql.Comparison.ofOperator? symbol = some comparison) :
    Sql.Spaced (" " ++ symbol ++ " ") [.operator symbol] := by
  unfold Sql.Comparison.ofOperator? at h
  split at h <;> first | decide | cases h

include hexpr

/-- A comparison is read as its operator and the value. -/
theorem symbols?_compare {symbol : String}
    (h : Sql.Spaced (" " ++ symbol ++ " ") [.operator symbol]) (v : Json) :
    (Predicate.compare expr symbol v).symbols? = some (ts ++ [.operator symbol, .value v]) := by
  rw [Predicate.compare, Fragment.wrap_empty]
  exact Fragment.symbols?_append_spaced hexpr h (Fragment.symbols?_ofValue v)

/-- A test for null is read as its words. -/
theorem symbols?_nullTest (null : Bool) :
    (expr.wrap "" (if null then " is null" else " is not null")).symbols? =
      some (ts ++ if null then [.word "is", .word "null"]
        else [.word "is", .word "not", .word "null"]) := by
  rw [Fragment.wrap_empty]
  cases null with
  | true => exact Fragment.symbols?_append_of_starts (g := .ofText " is null") hexpr (by decide)
  | false =>
    exact Fragment.symbols?_append_of_starts (g := .ofText " is not null") hexpr (by decide)

/-- A list of values is read in parentheses with commas between them. -/
theorem symbols?_listed (negated : Bool) (values : List Json) :
    (expr.wrap "" (if negated then " not in " else " in ") ++
        (Fragment.join ", " (values.map .ofValue)).parenthesize).symbols? =
      some (ts ++ ((if negated then [.word "not"] else []) ++ .word "in" :: .leftParen ::
        ([.comma].intercalate (values.map ([.value ·])) ++ [.rightParen]))) := by
  have hvalue : List.Forall₂ (fun f ts => f.symbols? = some ts) (values.map Fragment.ofValue)
      (values.map ([.value ·])) := by
    rw [List.forall₂_map_left_iff, List.forall₂_map_right_iff, List.forall₂_same]
    exact fun v _ => Fragment.symbols?_ofValue v
  have hlist := Fragment.symbols?_join (by decide : Sql.Spaced ", " [.comma]) hvalue
  have hread := Fragment.symbols?_append_spaced hexpr (spaced_in negated)
    (Fragment.symbols?_parenthesize hlist)
  rw [List.append_assoc] at hread
  rw [Fragment.wrap_empty]
  exact hread

/-- A test for a range is read as its words and the two ends. -/
theorem symbols?_between (negated : Bool) (range : Calendar.DateRange) :
    (Predicate.between negated expr range).symbols? =
      some (ts ++ ((if negated then [.word "not"] else []) ++ [.word "between",
        .value (.string range.first.text), .word "and", .value (.string range.last.text)])) := by
  have hspaced : Sql.Spaced (if negated then " not between " else " between ")
      ((if negated then [.word "not"] else []) ++ [.word "between"]) := by
    cases negated <;> decide
  have hfirst := Fragment.symbols?_append_spaced hexpr hspaced
    (Fragment.symbols?_ofValue (.string range.first.text))
  have hand : Sql.Spaced " and " [.word "and"] := by decide
  have hread := Fragment.symbols?_append_spaced hfirst hand
    (Fragment.symbols?_ofValue (.string range.last.text))
  rw [Predicate.between, Fragment.wrap_empty, hread]
  simp

/-- A match is read as its word and the pattern. -/
theorem symbols?_patternMatch (d : Sql.Dialect) (p : Sql.PatternMatch) (v : Json) :
    (d.patternMatch expr p v).symbols? = some (ts ++ ((if p.negated then [.word "not"] else []) ++
      .word "ilike" :: Sql.patternSymbols p.leadingWildcard p.trailingWildcard v)) := by
  obtain ⟨before, after, negated⟩ := p
  have hbefore : Sql.Spaced (" " ++ (if negated then "not " else "") ++ "ilike" ++ " " ++
      (if before then "'%' " ++ "||" ++ " " else ""))
      ((if negated then [.word "not"] else []) ++ .word "ilike" ::
        (if before then [.literal "%", .operator "||"] else [])) := by
    cases negated <;> cases before <;> decide
  have hvalue := Fragment.symbols?_append_spaced hexpr hbefore (Fragment.symbols?_ofValue v)
  rw [patternMatch_eq, symbols?_append_wildcard after hvalue]
  simp [Sql.patternSymbols]

/-- A test for the rows of a statement is read as the statement in parentheses. -/
theorem symbols?_nested (negated : Bool) {rows : Fragment} {inner : List Symbol}
    (hrows : rows.symbols? = some (.word "select" :: inner)) :
    (Predicate.nested negated expr rows).symbols? =
      some (ts ++ ((if negated then [.word "not"] else []) ++
        .word "in" :: .leftParen :: .word "select" :: (inner ++ [.rightParen]))) := by
  rw [← Fragment.symbols?_sealed] at hrows
  have hread := Fragment.symbols?_append_spaced hexpr (spaced_in negated)
    (Fragment.symbols?_parenthesize hrows)
  rw [List.append_assoc] at hread
  rw [Predicate.nested, Fragment.wrap_empty]
  exact hread

end Symbols

section Leaves

variable {V : Type} (db : Semantics V) (row : List String → Option V) {expr : Fragment}
  {parts : List String} (hne : parts ≠ []) (hexpr : expr.symbols? = some (Sql.pathSymbols parts))

include hne hexpr

/-- A comparison says that the order holds. -/
private theorem says_compare {symbol : String} {comparison : Sql.Comparison}
    (h : Sql.Comparison.ofOperator? symbol = some comparison) (v : Json) :
    (Predicate.compare expr symbol v).Says db row
      (Semantics.test (db.compare comparison) (row parts) (db.bound v)) := by
  exact ⟨_, _, symbols?_compare hexpr (spaced_operator h) v, Sql.phrase_compare hne h v, rfl⟩

/-- A difference says that the values are not equal. -/
private theorem says_differs (v : Json) :
    (Predicate.compare expr "<>" v).Says db row
      (Semantics.test (db.compare .equal) (row parts) (db.bound v)).not := by
  exact ⟨_, _, symbols?_compare hexpr (by decide) v, Sql.phrase_differs hne v, rfl⟩

/-- A test for null says whether there is a value. -/
private theorem says_nullTest (null : Bool) :
    (expr.wrap "" (if null then " is null" else " is not null")).Says db row
      (.ofBool ((row parts).isNone = null)) := by
  have hread := symbols?_nullTest hexpr null
  cases null with
  | true =>
    refine says_of_phrase hread (Sql.phrase_isNull hne) rfl ?_
    cases h : row parts <;> simp [Condition.truth, Sql.Operand.value, h]
  | false =>
    refine says_of_phrase hread (Sql.phrase_isNotNull hne) rfl ?_
    cases h : row parts <;> simp [Condition.truth, Sql.Operand.value, h] <;> rfl

/-- The single value is compared, several values are listed. -/
private theorem says_membership (negated : Bool) {values : List Json} (hvalues : values ≠ []) :
    (Predicate.membership negated expr values).Says db row
      ((db.member (row parts) (values.map db.bound)).negate negated) := by
  unfold Predicate.membership
  split
  · rename_i v
    -- One value is among those listed if it is that value.
    have hsingle : db.member (row parts) [db.bound v] =
        Semantics.test (db.compare .equal) (row parts) (db.bound v) := Truth.or_no _
    rw [List.map_singleton, hsingle]
    cases negated with
    | true => exact says_differs db row hne hexpr v
    | false => exact says_compare db row hne hexpr rfl v
  · refine ⟨_, _, symbols?_listed hexpr negated values, Sql.phrase_oneOf hne negated hvalues, ?_⟩
    rw [Condition.truth_negate, Condition.truth, List.map_map]
    rfl

/-- The `and` between the ends of a range belongs to the range. -/
private theorem says_between (negated : Bool) (range : Calendar.DateRange) :
    (Predicate.between negated expr range).Says db row
      ((db.between (row parts) (db.bound (.string range.first.text))
        (db.bound (.string range.last.text))).negate negated) := by
  have hphrase := Sql.phrase_between hne negated (.string range.first.text)
    (.string range.last.text)
  exact ⟨_, _, symbols?_between hexpr negated range, hphrase, Condition.truth_negate ..⟩

/-- A text with wildcards is matched. -/
private theorem says_patternMatch (d : Sql.Dialect) (p : Sql.PatternMatch) (v : Json) :
    (d.patternMatch expr p v).Says db row
      ((Semantics.test db.like (row parts)
        (db.pattern (p.leadingWildcard, p.trailingWildcard) (db.bound v))).negate p.negated) := by
  obtain ⟨before, after, negated⟩ := p
  refine ⟨_, _, symbols?_patternMatch hexpr d _ v, Sql.phrase_like hne negated before after v, ?_⟩
  rw [Condition.truth_negate]
  cases before <;> cases after <;> rfl

/-- The rows of a nested statement are listed. -/
private theorem says_nested (negated : Bool) {rows : Fragment} {inner : List Symbol}
    (hrows : rows.symbols? = some (.word "select" :: inner)) (hinner : Sql.Balanced inner) :
    (Predicate.nested negated expr rows).Says db row
      ((db.member (row parts) (db.rows (.word "select" :: inner))).negate negated) := by
  exact ⟨_, _, symbols?_nested hexpr negated hrows, Sql.phrase_inRows hne negated hinner,
    Condition.truth_negate ..⟩

/-- The value stands in the given order to every listed one. -/
private theorem says_comparisons {symbol : String} {comparison : Sql.Comparison}
    (h : Sql.Comparison.ofOperator? symbol = some comparison) {values : List Json}
    (hvalues : values ≠ []) :
    (Predicate.combine " and " (values.map (Predicate.compare expr symbol))).Says db row
      (.all (values.map fun v =>
        Semantics.test (db.compare comparison) (row parts) (db.bound v))) := by
  refine says_combine .all (by simpa using hvalues) ?_
  rw [List.forall₂_map_left_iff, List.forall₂_map_right_iff, List.forall₂_same]
  exact fun v _ => says_compare db row hne hexpr h v

/-- One of the texts is matched, or none of them. -/
private theorem says_patterns (d : Sql.Dialect) (p : Sql.PatternMatch) {texts : List String}
    (htexts : texts ≠ []) :
    (Predicate.combine (if p.negated then " and " else " or ")
      (texts.map fun s => d.patternMatch expr p (.string s))).Says db row
      ((Truth.any (texts.map fun s => Semantics.test db.like (row parts)
        (db.pattern (p.leadingWildcard, p.trailingWildcard) (db.bound (.string s))))).negate
        p.negated) := by
  have hparts : List.Forall₂ (Fragment.Says db row)
      (texts.map fun s => d.patternMatch expr p (.string s))
      ((texts.map fun s => Semantics.test db.like (row parts)
        (db.pattern (p.leadingWildcard, p.trailingWildcard) (db.bound (.string s)))).map
        (Truth.negate p.negated)) := by
    rw [List.map_map, List.forall₂_map_left_iff, List.forall₂_map_right_iff, List.forall₂_same]
    exact fun s _ => says_patternMatch db row hne hexpr d p (.string s)
  have hne' : (texts.map fun s => d.patternMatch expr p (.string s)) ≠ [] := by simpa using htexts
  cases hnegated : p.negated with
  | true =>
    -- None is matched where each of them is not.
    rw [hnegated] at hparts
    rw [Truth.negate, if_pos rfl, Truth.not_any]
    exact says_combine .all hne' hparts
  | false =>
    rw [hnegated, show Truth.negate false = id from rfl, List.map_id] at hparts
    exact says_combine .any hne' hparts

/-- The predicate of a leaf says what the leaf says. -/
theorem says_of_leaf {scope : PredicateScope} {operator : Operator} {member : String}
    {payload : Payload} {sql : Fragment} (htakes : operator.Takes payload)
    (hnested : ∀ query, payload = .query query → scope.ReadsNested query)
    (h : scope.leaf operator member payload expr = .ok sql) :
    ∃ t, sql.Says db row t ∧ scope.leafTruth db operator (row parts) payload = .ok t := by
  -- The payload is of the shape that the operator takes, which leaves the operators of that shape.
  cases htakes with
  | none hshape =>
    cases operator with
    | set =>
      obtain rfl := Except.ok.inj h
      exact ⟨_, says_nullTest db row hne hexpr false, by cases row parts <;> rfl⟩
    | notSet =>
      obtain rfl := Except.ok.inj h
      exact ⟨_, says_nullTest db row hne hexpr true, by cases row parts <;> rfl⟩
    | _ => cases hshape
  | values hshape hvalues =>
    cases operator with
    | equals | oneOf =>
      obtain rfl := Except.ok.inj h
      exact ⟨_, says_membership db row hne hexpr false hvalues, rfl⟩
    | notEquals | notOneOf =>
      obtain rfl := Except.ok.inj h
      exact ⟨_, says_membership db row hne hexpr true hvalues, rfl⟩
    | greater | greaterOrEqual | less | lessOrEqual =>
      obtain rfl := Except.ok.inj h
      exact ⟨_, says_comparisons db row hne hexpr rfl hvalues, rfl⟩
    | _ => cases hshape
  | strings hshape htexts =>
    cases operator with
    | contains | notContains | startsWith | notStartsWith | endsWith | notEndsWith =>
      obtain rfl := Except.ok.inj h
      exact ⟨_, says_patterns db row hne hexpr scope.dialect _ htexts, rfl⟩
    | _ => cases hshape
  | date hshape =>
    obtain ⟨range, hrange, h⟩ := exists_ok_of_bind h
    cases operator with
    | beforeDate | afterDate =>
      obtain rfl := Except.ok.inj h
      refine ⟨_, says_compare db row hne hexpr rfl _, ?_⟩
      rw [PredicateScope.leafTruth, PredicateScope.holds, hrange]
      rfl
    | _ => cases hshape
  | phrase hshape =>
    obtain ⟨range, hrange, h⟩ := exists_ok_of_bind h
    obtain rfl := Except.ok.inj h
    refine ⟨_, says_between db row hne hexpr _ range, ?_⟩
    rw [PredicateScope.leafTruth, PredicateScope.holds, hrange]
    cases operator <;> cases hshape <;> rfl
  | bounds hshape =>
    obtain ⟨range, hrange, h⟩ := exists_ok_of_bind h
    obtain rfl := Except.ok.inj h
    refine ⟨_, says_between db row hne hexpr _ range, ?_⟩
    rw [PredicateScope.leafTruth, PredicateScope.holds, hrange]
    cases operator <;> cases hshape <;> rfl
  | query hshape =>
    obtain ⟨statement, hstatement, h⟩ := exists_ok_of_bind h
    obtain ⟨hwidth, h⟩ := not_and_ok_of_check h
    obtain rfl := Except.ok.inj h
    obtain ⟨ts, hts, hbalanced⟩ := hnested _ rfl statement hstatement
    -- A nested statement has one column, so its text goes on after its first word.
    have hselect : statement.select ≠ [] := by
      intro hnil
      rw [hnil] at hwidth
      exact hwidth (by simp)
    obtain ⟨inner, rfl, hinner⟩ := exists_inner_of_render hselect hts hbalanced
    refine ⟨_, says_nested db row hne hexpr _ hts hinner, ?_⟩
    rw [PredicateScope.leafTruth, PredicateScope.holds, hstatement]
    change Except.ok (Truth.negate _ (db.member _ (scope.nestedRows db statement))) = _
    rw [PredicateScope.nestedRows, hts]
    cases operator <;> cases hshape <;> rfl

end Leaves

end MetricLayer
