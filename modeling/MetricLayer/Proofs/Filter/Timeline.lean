import MetricLayer.Proofs.Calendar.Window
import MetricLayer.Proofs.Filter.Binding
import MetricLayer.Proofs.Filter.Expression

/-!
# Dates on the line of time

The operators for dates compare a member with the ends of the range that a text stands for. Where
the ends stand in order, every point in time lies before the range, in it or after it, so of the
three predicates for a text exactly one holds.

- `Sql.Semantics.ReadsTimes` — a database reads the texts of points in time in the order of time;
- `PredicateScope.SplitsTime` — exactly one of the predicates for a text holds;
- `PredicateScope.splitsTime_of_proper` — this is so where the ends of its range stand in order;
- `PredicateScope.ranges_split_time` — the law for all texts, with the lengths of rolling windows.
-/

namespace MetricLayer

open Sql (Fragment Expression Semantics ScalarSemantics comparisonRank)
open Calendar (DateTime DateRange Period parseDate)

/-! ## Databases with times -/

namespace Sql

variable {V : Type} [LinearOrder V]

/-- The comparisons of an ordered type. -/
def Comparison.inOrder : Comparison → V → V → Bool
  | .equal, a, b => a = b
  | .less, a, b => a < b
  | .atMost, a, b => a ≤ b
  | .greater, a, b => b < a
  | .atLeast, a, b => b ≤ a

namespace Semantics

/-- A database compares values by their order, and the text of a later point in time does not stand
for an earlier value. -/
structure ReadsTimes (db : Semantics V) (place : DateTime → V) : Prop where
  compare : db.compare = Comparison.inOrder
  bound : ∀ t : DateTime, t.Valid → db.bound (.string t.text) = some (place t)
  monotone : MonotoneOn place {t | t.Valid}

/-- A value lies before a range, in it or after it. -/
theorem ReadsTimes.perm_truths {db : Semantics V} {place : DateTime → V} (hdb : db.ReadsTimes place)
    {r : DateRange} (hr : r.Proper) (v : V) :
    let first := db.bound (.string r.first.text)
    let last := db.bound (.string r.last.text)
    [test (db.compare .less) (some v) first, db.between (some v) first last,
      test (db.compare .greater) (some v) last].Perm [.yes, .no, .no] := by
  have hle : place r.first ≤ place r.last := hdb.monotone hr.first hr.last hr.first_le_last
  simp only [hdb.bound _ hr.first, hdb.bound _ hr.last, between, test, hdb.compare,
    Comparison.inOrder]
  -- The ends stand in order, so the three cases exclude each other.
  rcases lt_or_ge v (place r.first) with hbefore | hfirst
  · have hlast : v ≤ place r.last := hbefore.le.trans hle
    rw [decide_eq_true hbefore, decide_eq_false hbefore.not_ge, decide_eq_true hlast,
      decide_eq_false hlast.not_gt]
    decide
  rcases lt_or_ge (place r.last) v with hafter | hlast
  · rw [decide_eq_false hfirst.not_gt, decide_eq_true hfirst, decide_eq_false hafter.not_ge,
      decide_eq_true hafter]
    decide
  · rw [decide_eq_false hfirst.not_gt, decide_eq_true hfirst, decide_eq_true hlast,
      decide_eq_false hlast.not_gt]
    decide

end Semantics

end Sql

/-! ## Predicates for dates -/

namespace PredicateScope

variable {scope : PredicateScope} {member : String → Result Fragment} {path text : String}
  {value : Json} {expr : Fragment} {x : Expression} {r : DateRange}

/-- The leaf has a predicate, which is read as the expression. -/
def ReadsAs (scope : PredicateScope) (member : String → Result Fragment) (l : FilterLeaf)
    (e : Expression) : Prop :=
  ∃ sql, scope.predicate member (.leaf l) = .ok sql ∧ sql.expression? = some e

/-- The values of leaves that consist of the text. -/
def textValues (text : String) : List Json := [.string text, .array [.string text]]

/-- Over every operand, the predicates for the text are read as three expressions. Of every value of
the operand in every database with times, one of them holds and the other two do not. -/
def SplitsTime (scope : PredicateScope) (text : String) : Prop :=
  ∀ (member : String → Result Fragment) (path : String) (value : Json) (expr : Fragment)
    (x : Expression), value ∈ textValues text → member path = .ok expr →
    expr.expression? = some x → comparisonRank < x.rank →
    ∃ before within after : Expression,
      scope.ReadsAs member ⟨.beforeDate, path, some value⟩ before ∧
      scope.ReadsAs member ⟨.inDateRange, path, some value⟩ within ∧
      scope.ReadsAs member ⟨.afterDate, path, some value⟩ after ∧
      ∀ {V : Type} [LinearOrder V] (db : ScalarSemantics V) (place : DateTime → V),
        db.ReadsTimes place → ∀ (row : List String → Option V) (v : V), x.value db row = some v →
          [before.truth db row, within.truth db row, after.truth db row].Perm [.yes, .no, .no]

/-- A leaf whose payload needs the range of a text has a predicate where the text stands for one. It
is read as an expression that says what the leaf says. -/
private theorem exists_readsAs {operator : Operator} {payload : Payload}
    (hcheck : FilterLeaf.check ⟨operator, path, some value⟩ = .ok payload)
    (hpayload : payload = .date text ∨ payload = .phrase text)
    (hmember : member path = .ok expr) (hexpr : expr.expression? = some x)
    (hrank : comparisonRank < x.rank) (hrange : parseDate text scope.now = .ok r) :
    ∃ e, scope.ReadsAs member ⟨operator, path, some value⟩ e ∧
      ∀ {V : Type} (db : ScalarSemantics V) (row : List String → Option V),
        scope.leafTruth db.toSemantics operator (x.value db row) payload =
          .ok (e.truth db row) := by
  have htakes := FilterLeaf.takes_of_check hcheck
  -- There is a range to find and no query to compile.
  have hresolves : scope.Resolves payload := by
    rcases hpayload with rfl | rfl <;> exact ⟨r, hrange⟩
  obtain ⟨sql, hsql⟩ : ∃ sql, scope.leaf operator path payload expr = .ok sql :=
    (exists_leaf_iff htakes).2 hresolves
  have hnested (query : Query) (h : payload = .query query) : scope.ReadsNested query := by
    rcases hpayload with rfl | rfl <;> cases h
  obtain ⟨e, he, htruth⟩ := exists_expression_of_leaf hexpr hrank htakes hnested hsql
  exact ⟨e, ⟨sql, predicate_leaf_eq_ok_iff.2 ⟨payload, expr, hcheck, hmember, hsql⟩, he⟩, htruth⟩

/-- The predicates for a text whose range exists and is not empty divide time. -/
theorem splitsTime_of_proper (hrange : parseDate text scope.now = .ok r) (hr : r.Proper) :
    scope.SplitsTime text := by
  intro member path value expr x hvalue hmember hexpr hrank
  have hcheck : FilterLeaf.check ⟨.beforeDate, path, some value⟩ = .ok (.date text) ∧
      FilterLeaf.check ⟨.inDateRange, path, some value⟩ = .ok (.phrase text) ∧
      FilterLeaf.check ⟨.afterDate, path, some value⟩ = .ok (.date text) := by
    simp only [textValues, List.mem_cons, List.not_mem_nil, or_false] at hvalue
    rcases hvalue with rfl | rfl <;> exact ⟨rfl, rfl, rfl⟩
  obtain ⟨hbefore, hwithin, hafter⟩ := hcheck
  -- All three leaves need the range of the one text, which exists.
  obtain ⟨before, hreadBefore, htruthBefore⟩ :=
    exists_readsAs hbefore (.inl rfl) hmember hexpr hrank hrange
  obtain ⟨within, hreadWithin, htruthWithin⟩ :=
    exists_readsAs hwithin (.inr rfl) hmember hexpr hrank hrange
  obtain ⟨after, hreadAfter, htruthAfter⟩ :=
    exists_readsAs hafter (.inl rfl) hmember hexpr hrank hrange
  refine ⟨before, within, after, hreadBefore, hreadWithin, hreadAfter, ?_⟩
  intro V _ db place hdb row v hv
  -- What each expression says of the row is what its leaf says of the value.
  have hsaid {operator : Operator} {payload : Payload} {t t' : Truth}
      (h : scope.leafTruth db.toSemantics operator (x.value db row) payload = .ok t)
      (h' : scope.leafTruth db.toSemantics operator (some v) payload = .ok t') : t = t' := by
    rw [hv] at h
    exact Except.ok.inj (h.symm.trans h')
  rw [hsaid (htruthBefore db row) (by rw [leafTruth, holds, hrange]; rfl),
    hsaid (htruthWithin db row) (by rw [leafTruth, holds, hrange]; rfl),
    hsaid (htruthAfter db row) (by rw [leafTruth, holds, hrange]; rfl)]
  exact hdb.perm_truths hr v

/-- Every text that is not a range between two expressions stands for a range whose ends stand in
order, so its predicates divide time. Windows of days and weeks have as many days as they say, and
every window ends with the day of the reference time and lies within the window of one more unit. -/
theorem ranges_split_time (scope : PredicateScope) (hnow : scope.now.Valid) :
    (∀ text r, parseDate text scope.now = .ok r →
      Calendar.fromTo? (Calendar.lower (Text.trim text.toList)) = none →
        r.first ≤ r.last ∧ scope.SplitsTime text) ∧
    ∀ n, ∀ unit ∈ Period.countable, ∀ plural r,
      parseDate (Calendar.windowText n unit plural) scope.now = .ok r →
        r.first.time = .midnight ∧ r.last = ⟨scope.now.date, .lastMillisecond⟩ ∧
        (∀ days, (unit, days) ∈ [(Period.day, 1), (Period.week, 7)] →
          {day : Calendar.Date | day.Valid ∧ r.Covers day}.ncard = days * n) ∧
        ∀ plural' r', parseDate (Calendar.windowText (n + 1) unit plural') scope.now = .ok r' →
          Set.Icc r.first r.last ⊂ Set.Icc r'.first r'.last := by
  refine ⟨fun text r h hsimple => ?_, fun n unit hunit plural r h => ?_⟩
  · have hr := Calendar.proper_of_parseDate hnow h hsimple
    exact ⟨hr.first_le_last, splitsTime_of_proper h hr⟩
  · obtain ⟨_, first, -, -, -, -, -, hr⟩ :=
      Calendar.exists_of_parseDate_windowText hnow.date hunit h
    exact ⟨congrArg (·.first.time) hr, congrArg (·.last) hr,
      fun days hdays => Calendar.ncard_covers_window hnow.date hdays h,
      fun plural' r' h' => Calendar.window_ssubset_window hnow.date hunit h h'⟩

/-! ### The end of March -/

/-- The last evening of March in a leap year. -/
private def marchScope : PredicateScope where
  dialect := .ansi
  now := ⟨⟨2024, 3, 31⟩, ⟨21, 15, 0, 0⟩⟩
  nested _ := .ok { source := some (.table "orders" none) }

/-- The last month up to that evening. -/
private def lastMonth : Json := .string "last 1 month"

/-- A column of orders. -/
private def orderMember (path : String) : Result Fragment :=
  .ok (.ofColumn "o" path (Sql.Dialect.ansi.quotePath ["o", path]))

/-- A database of points in time up to milliseconds. A text stands for the start of its range. -/
private def timeDatabase : ScalarSemantics DateTime where
  bound
    | .string s => (parseDate s marchScope.now).toOption.map (·.first)
    | _ => none
  text _ := marchScope.now
  compare := Sql.Comparison.inOrder
  like _ _ := false
  concat s _ := s
  rows _ := []
  constant _ := none
  dotted _ _ := none
  call _ _ _ := none
  calculate _ _ _ := none
  boolean b := if b then marchScope.now else ⟨marchScope.now.date, .midnight⟩
  holds t := t = marchScope.now
  holds_boolean b := by cases b <;> decide
  rows_fold _ := rfl

/-- The database reads times without what is finer than milliseconds. -/
private theorem readsTimes_timeDatabase :
    timeDatabase.ReadsTimes DateTime.truncated where
  compare := rfl
  bound t ht := by
    have hbound (text : String) : timeDatabase.bound (.string text) =
        (parseDate text marchScope.now).toOption.map (·.first) := rfl
    rw [hbound, DateTime.parseDate_text ht]
    rfl
  monotone s _ t _ h := by
    rw [DateTime.le_iff] at h ⊢
    refine h.imp_right fun ⟨hdate, htime⟩ => ⟨hdate, ?_⟩
    rw [← not_lt, Calendar.Time.lt_iff] at htime ⊢
    simp only [DateTime.truncated, Calendar.Time.truncated]
    omega

/-- There is no February 31, so the window of one month starts after the last of February. That of
two months contains it. Every point in time lies in one of the three cases for it. -/
theorem ranges_split_time_march :
    parseDate "last 1 month" marchScope.now =
      .ok ⟨⟨⟨2024, 3, 1⟩, .midnight⟩, ⟨⟨2024, 3, 31⟩, .lastMillisecond⟩⟩ ∧
    parseDate "last 2 months" marchScope.now =
      .ok ⟨⟨⟨2024, 2, 1⟩, .midnight⟩, ⟨⟨2024, 3, 31⟩, .lastMillisecond⟩⟩ ∧
    Set.Icc (⟨⟨2024, 3, 1⟩, .midnight⟩ : DateTime) ⟨⟨2024, 3, 31⟩, .lastMillisecond⟩ ⊂
      Set.Icc ⟨⟨2024, 2, 1⟩, .midnight⟩ ⟨⟨2024, 3, 31⟩, .lastMillisecond⟩ ∧
    parseDate "last 2 weeks" marchScope.now =
      .ok ⟨⟨⟨2024, 3, 18⟩, .midnight⟩, ⟨⟨2024, 3, 31⟩, .lastMillisecond⟩⟩ ∧
    {day : Calendar.Date | day.Valid ∧ DateRange.Covers
      ⟨⟨⟨2024, 3, 18⟩, .midnight⟩, ⟨⟨2024, 3, 31⟩, .lastMillisecond⟩⟩ day}.ncard = 14 ∧
    ∃ before within after : Expression,
      marchScope.ReadsAs orderMember ⟨.beforeDate, "placed", some lastMonth⟩ before ∧
      marchScope.ReadsAs orderMember ⟨.inDateRange, "placed", some lastMonth⟩ within ∧
      marchScope.ReadsAs orderMember ⟨.afterDate, "placed", some lastMonth⟩ after ∧
      ∀ t : DateTime,
        [before.truth timeDatabase fun _ => some t, within.truth timeDatabase fun _ => some t,
          after.truth timeDatabase fun _ => some t].Perm [.yes, .no, .no] := by
  have hmonth : parseDate "last 1 month" marchScope.now =
      .ok ⟨⟨⟨2024, 3, 1⟩, .midnight⟩, ⟨⟨2024, 3, 31⟩, .lastMillisecond⟩⟩ := by
    decide +kernel
  have hmonths : parseDate "last 2 months" marchScope.now =
      .ok ⟨⟨⟨2024, 2, 1⟩, .midnight⟩, ⟨⟨2024, 3, 31⟩, .lastMillisecond⟩⟩ := by
    decide +kernel
  have hweeks : parseDate "last 2 weeks" marchScope.now =
      .ok ⟨⟨⟨2024, 3, 18⟩, .midnight⟩, ⟨⟨2024, 3, 31⟩, .lastMillisecond⟩⟩ := by
    decide +kernel
  have hmember : (orderMember "placed").toOption.map (·.expression?) =
      some (some (.atom (.column ["o", "placed"]))) := by
    decide +kernel
  obtain ⟨_, hmember, hexpr⟩ := exists_ok_of_toOption_map hmember
  obtain ⟨hsplit, hwindow⟩ := ranges_split_time marchScope ⟨by decide, by decide⟩
  obtain ⟨-, -, -, hcontained⟩ := hwindow 1 .month (by decide) false _ hmonth
  obtain ⟨-, -, hlength, -⟩ := hwindow 2 .week (by decide) true _ hweeks
  obtain ⟨before, within, after, hbefore, hwithin, hafter, htruth⟩ :=
    (hsplit _ _ hmonth (by decide +kernel)).2 orderMember "placed" lastMonth _ _ (by decide)
      hmember hexpr (by decide)
  exact ⟨hmonth, hmonths, hcontained true _ hmonths, hweeks, hlength 7 (by decide),
    before, within, after, hbefore, hwithin, hafter,
    fun t => htruth timeDatabase _ readsTimes_timeDatabase _ t rfl⟩

end PredicateScope

end MetricLayer
