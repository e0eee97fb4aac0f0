import MetricLayer.Filter.Predicate
import MetricLayer.Proofs.Filter.Payload
import MetricLayer.Proofs.Result
import MetricLayer.Proofs.Sql.Statement

/-!
# Filters that differ in their payloads

Two filters are alike when they have the same shape, operators and members, and their leaves list
the same number of values; the values themselves, the dates and the nested queries may differ. The
predicates of such filters are related by every relation that composition keeps, since a value only
ever reaches a predicate as a binding.
-/

namespace MetricLayer

open Sql (Fragment Congruence ScanNeutral Statement)

/-! ## Payloads and queries -/

/-- The number of values that a leaf lists: the items of an array, or a single value. -/
def valueCount : Option Json → Nat
  | none => 0
  | some (.array items) => items.length
  | some _ => 1

/-- Two leaves with the same operator and member, whose payloads differ in data only. Nested queries
are compared by `Q`. -/
inductive FilterLeaf.Alike (Q : Query → Query → Prop) : FilterLeaf → FilterLeaf → Prop
  /-- There is no payload. -/
  | none {operator : Operator} {member : String} {value : Option Json}
      (h : operator.shape = .none) : Alike Q ⟨operator, member, value⟩ ⟨operator, member, value⟩
  /-- As many values are listed. -/
  | values {operator : Operator} {member : String} {value value' : Option Json}
      (h : operator.shape = .values ∨ operator.shape = .strings)
      (hcount : valueCount value = valueCount value') :
      Alike Q ⟨operator, member, value⟩ ⟨operator, member, value'⟩
  /-- The payloads are dates. -/
  | dates {operator : Operator} {member : String} {value value' : Option Json}
      (h : operator.shape = .date ∨ operator.shape = .range) :
      Alike Q ⟨operator, member, value⟩ ⟨operator, member, value'⟩
  /-- The payloads are queries that are alike in turn. -/
  | query {operator : Operator} {member : String} {value value' : Option Json}
      (h : operator.shape = .query)
      (hquery : ∀ q q', value.bind Query.decode? = some q → value'.bind Query.decode? = some q' →
        Q q q') : Alike Q ⟨operator, member, value⟩ ⟨operator, member, value'⟩

mutual

/-- Two filters of the same shape with alike leaves. -/
inductive Filter.Alike (Q : Query → Query → Prop) : Filter → Filter → Prop
  | leaf {l l' : FilterLeaf} : l.Alike Q l' → Filter.Alike Q (.leaf l) (.leaf l')
  | group (connective : Connective) {children children' : List Filter} :
      Filter.AlikeAll Q children children' →
      Filter.Alike Q (.group connective children) (.group connective children')

/-- Filters that are alike one by one. -/
inductive Filter.AlikeAll (Q : Query → Query → Prop) : List Filter → List Filter → Prop
  | nil : Filter.AlikeAll Q [] []
  | cons {f f' : Filter} {rest rest' : List Filter} : Filter.Alike Q f f' →
      Filter.AlikeAll Q rest rest' → Filter.AlikeAll Q (f :: rest) (f' :: rest')

end

/-- Two queries that ask for the same members in the same order, under alike filters, and for pages
that give the same numbers. Nested queries are compared by `Q`. -/
structure Query.AlikeUpTo (Q : Query → Query → Prop) (q q' : Query) : Prop where
  dimensions : q.dimensions = q'.dimensions
  metrics : q.metrics = q'.metrics
  filter : Option.Rel (Filter.Alike Q) q.filter q'.filter
  order : q.order = q'.order
  limit : q.limit.isSome = q'.limit.isSome
  offset : q.offset.isSome = q'.offset.isSome

/-- Two queries that differ only in payload data, at any depth of nesting. -/
inductive Query.Alike : Query → Query → Prop
  | intro {q q' : Query} (dimensions : q.dimensions = q'.dimensions)
      (metrics : q.metrics = q'.metrics)
      (filter : Option.Rel (Filter.Alike Query.Alike) q.filter q'.filter)
      (order : q.order = q'.order) (limit : q.limit.isSome = q'.limit.isSome)
      (offset : q.offset.isSome = q'.offset.isSome) : Query.Alike q q'

/-- Related queries are alike up to the same relation on the queries nested in them. -/
def Query.IsSimulation (Q : Query → Query → Prop) : Prop :=
  ∀ q q', Q q q' → Query.AlikeUpTo Q q q'

/-- That two queries are alike is known from their nested queries. -/
theorem Query.isSimulation_alike : Query.IsSimulation Query.Alike := by
  rintro q q' ⟨hdim, hmet, hfilter, horder, hlimit, hoffset⟩
  exact ⟨hdim, hmet, hfilter, horder, hlimit, hoffset⟩

/-- A leaf is like itself. -/
theorem FilterLeaf.alike_refl (l : FilterLeaf) : l.Alike Eq l := by
  -- The shape of the operator decides which case of likeness applies.
  obtain ⟨operator, member, value⟩ := l
  cases hshape : operator.shape with
  | none => exact .none hshape
  | values => exact .values (.inl hshape) rfl
  | strings => exact .values (.inr hshape) rfl
  | date => exact .dates (.inl hshape)
  | range => exact .dates (.inr hshape)
  | query => exact .query hshape fun q q' hq hq' => Option.some.inj (hq.symm.trans hq')

mutual

/-- A filter is like itself. -/
theorem Filter.alike_refl : (f : Filter) → f.Alike Eq f
  | .leaf l => .leaf l.alike_refl
  | .group connective children => .group connective (Filter.alikeAll_refl children)

/-- Filters are like themselves. -/
theorem Filter.alikeAll_refl : (fs : List Filter) → Filter.AlikeAll Eq fs fs
  | [] => .nil
  | f :: rest => .cons f.alike_refl (Filter.alikeAll_refl rest)

end

/-- That two queries are equal is known from their nested queries. -/
theorem Query.isSimulation_eq : Query.IsSimulation Eq := by
  rintro q _ rfl
  refine ⟨rfl, rfl, ?_, rfl, rfl, rfl⟩
  cases q.filter with
  | none => exact .none
  | some f => exact .some f.alike_refl

/-! ## Members and conjuncts -/

mutual

/-- Filters that are alike have leaves on the same members. -/
private theorem Filter.Alike.leaves_eq {Q : Query → Query → Prop} : {f f' : Filter} →
    f.Alike Q f' → f.leaves.map (·.member) = f'.leaves.map (·.member)
  | _, _, .leaf hl => by cases hl <;> rfl
  | _, _, .group _ hchildren => Filter.AlikeAll.leaves_eq hchildren

/-- Several filters that are alike have leaves on the same members. -/
private theorem Filter.AlikeAll.leaves_eq {Q : Query → Query → Prop} : {fs fs' : List Filter} →
    Filter.AlikeAll Q fs fs' →
      (Filter.leavesAll fs).map (·.member) = (Filter.leavesAll fs').map (·.member)
  | _, _, .nil => rfl
  | _, _, .cons hf hrest => by
    rw [Filter.leavesAll, Filter.leavesAll, List.map_append, List.map_append, hf.leaves_eq,
      hrest.leaves_eq]

end

/-- Alike filters read the same members. -/
theorem Filter.Alike.members_eq {Q : Query → Query → Prop} {f f' : Filter} (h : f.Alike Q f') :
    f.members = f'.members := by
  rw [Filter.members, Filter.members, h.leaves_eq]

mutual

/-- Alike filters have alike conjuncts. -/
theorem Filter.Alike.conjuncts {Q : Query → Query → Prop} : {f f' : Filter} → f.Alike Q f' →
    List.Forall₂ (Filter.Alike Q) f.conjuncts f'.conjuncts
  | _, _, .leaf hl => .cons (.leaf hl) .nil
  | _, _, .group .all hchildren => Filter.AlikeAll.conjunctsAll hchildren
  | _, _, .group .any hchildren => .cons (.group .any hchildren) .nil

/-- Several filters that are alike have conjuncts that are alike. -/
private theorem Filter.AlikeAll.conjunctsAll {Q : Query → Query → Prop} :
    {fs fs' : List Filter} → Filter.AlikeAll Q fs fs' →
      List.Forall₂ (Filter.Alike Q) (Filter.conjunctsAll fs) (Filter.conjunctsAll fs')
  | _, _, .nil => .nil
  | _, _, .cons hf hrest => List.rel_append hf.conjuncts hrest.conjunctsAll

end

/-! ## Checked payloads -/

/-- Whether a payload is a range of dates. -/
def Payload.isRange : Payload → Bool
  | .phrase _ | .bounds _ _ => true
  | _ => false

theorem Payload.shape_eq_range_iff {p : Payload} : p.shape = .range ↔ p.isRange := by
  cases p <;> simp [shape, isRange]

/-- Two payloads for the same operator that differ in data only. -/
inductive Payload.Alike (Q : Query → Query → Prop) : Payload → Payload → Prop
  | none : Alike Q .none .none
  | values {vs ws : List Json} (h : vs.length = ws.length) : Alike Q (.values vs) (.values ws)
  | strings {vs ws : List String} (h : vs.length = ws.length) : Alike Q (.strings vs) (.strings ws)
  | date (text text' : String) : Alike Q (.date text) (.date text')
  | range {p p' : Payload} (h : p.isRange) (h' : p'.isRange) : Alike Q p p'
  | query {q q' : Query} (h : Q q q') : Alike Q (.query q) (.query q')

namespace FilterLeaf

/-- A value counts as many as it lists. -/
private theorem valueCount_some (v : Json) : valueCount (some v) = v.listed.length := by
  cases v <;> rfl

/-- As many values are read as the leaf lists. -/
private theorem length_values {values : List Json} {value : Option Json}
    (h : Payload.Reads value (.values values)) : values.length = valueCount value := by
  cases h
  rw [valueCount_some]

/-- As many strings are read as the leaf lists values. -/
private theorem length_strings {texts : List String} {value : Option Json}
    (h : Payload.Reads value (.strings texts)) : texts.length = valueCount value := by
  cases h with
  | strings hlisted => rw [valueCount_some, hlisted, List.length_map]

/-- A value that is read as a query decodes to it. -/
private theorem decode?_of_reads {q : Query} {value : Option Json}
    (h : Payload.Reads value (.query q)) : value.bind Query.decode? = some q := by
  cases h with
  | query hquery => exact hquery

/-- Alike leaves apply the same operator to the same member. -/
theorem Alike.operator_eq {Q : Query → Query → Prop} {l l' : FilterLeaf} (h : l.Alike Q l') :
    l.operator = l'.operator ∧ l.member = l'.member := by
  cases h <;> exact ⟨rfl, rfl⟩

/-- The payloads of alike leaves are alike. -/
theorem Alike.check {Q : Query → Query → Prop} {l l' : FilterLeaf} (h : l.Alike Q l') :
    Agree (Payload.Alike Q) l.check l'.check := by
  intro p p' hp hp'
  obtain ⟨htakes, hreads, -⟩ := check_ok_iff.1 hp
  obtain ⟨htakes', hreads', -⟩ := check_ok_iff.1 hp'
  -- Both payloads have the shape that the common operator wants.
  have hkind := htakes.shape_eq
  have hkind' := htakes'.shape_eq
  cases h with
  | none hshape =>
    obtain rfl := Payload.shape_eq_none_iff.1 (hkind.trans hshape)
    obtain rfl := Payload.shape_eq_none_iff.1 (hkind'.trans hshape)
    exact .none
  | values hshape hcount =>
    rcases hshape with hshape | hshape
    · obtain ⟨vs, rfl⟩ := Payload.shape_eq_values_iff.1 (hkind.trans hshape)
      obtain ⟨ws, rfl⟩ := Payload.shape_eq_values_iff.1 (hkind'.trans hshape)
      exact .values ((length_values hreads).trans (hcount.trans (length_values hreads').symm))
    · obtain ⟨ss, rfl⟩ := Payload.shape_eq_strings_iff.1 (hkind.trans hshape)
      obtain ⟨ts, rfl⟩ := Payload.shape_eq_strings_iff.1 (hkind'.trans hshape)
      exact .strings ((length_strings hreads).trans (hcount.trans (length_strings hreads').symm))
  | dates hshape =>
    rcases hshape with hshape | hshape
    · obtain ⟨text, rfl⟩ := Payload.shape_eq_date_iff.1 (hkind.trans hshape)
      obtain ⟨text', rfl⟩ := Payload.shape_eq_date_iff.1 (hkind'.trans hshape)
      exact .date text text'
    · exact .range (Payload.shape_eq_range_iff.1 (hkind.trans hshape))
        (Payload.shape_eq_range_iff.1 (hkind'.trans hshape))
  | query hshape hquery =>
    obtain ⟨q, rfl⟩ := Payload.shape_eq_query_iff.1 (hkind.trans hshape)
    obtain ⟨q', rfl⟩ := Payload.shape_eq_query_iff.1 (hkind'.trans hshape)
    exact .query (hquery q q' (decode?_of_reads hreads) (decode?_of_reads hreads'))

end FilterLeaf

/-! ## Predicates -/

section Predicates

variable {R : Fragment → Fragment → Prop} (hR : Congruence R) {e e' : Fragment} (he : R e e')

include hR

omit hR in
/-- What is made of as many entries is related where any two entries give related results. -/
private theorem forall₂_map_of_length {α : Type} {f g : α → Fragment} {as bs : List α}
    (h : as.length = bs.length) (hfg : ∀ a b, R (f a) (g b)) :
    List.Forall₂ R (as.map f) (bs.map g) :=
  List.forall₂_map_left_iff.2 (List.forall₂_map_right_iff.2
    (List.forall₂_iff_zip.2 ⟨h, fun _ => hfg _ _⟩))

/-- Combined parts are related where the parts are. -/
private theorem combine_related {separator : String} (hsep : ScanNeutral separator)
    {fs fs' : List Fragment} (h : List.Forall₂ R fs fs') :
    R (Predicate.combine separator fs) (Predicate.combine separator fs') := by
  have hjoin := hR.parenthesize (hR.join hsep h)
  cases h with
  | nil => exact hjoin
  | cons hf hrest =>
    cases hrest with
    | nil => exact hf
    | cons _ _ => exact hjoin

include he

/-- Comparisons with any two values are related. -/
private theorem compare_related {symbol : String} (h : ScanNeutral (" " ++ symbol ++ " "))
    (v w : Json) : R (Predicate.compare e symbol v) (Predicate.compare e' symbol w) :=
  hR.append (hR.wrap he (by decide) h) (hR.value v w)

/-- Tests for membership among as many values are related. -/
private theorem membership_related (negated : Bool) {vs ws : List Json}
    (h : vs.length = ws.length) :
    R (Predicate.membership negated e vs) (Predicate.membership negated e' ws) := by
  have hlist := hR.append (hR.wrap he (by decide : ScanNeutral "")
      (by cases negated <;> decide : ScanNeutral (if negated then " not in " else " in ")))
    (hR.parenthesize (hR.join (by decide : ScanNeutral ", ") (forall₂_map_of_length h hR.value)))
  -- A single value is compared directly; as the numbers of values agree, so do the two forms.
  match vs, ws, h with
  | [], [], _ => exact hlist
  | [v], [w], _ => exact compare_related hR he (by cases negated <;> decide) v w
  | _ :: _ :: _, _ :: _ :: _, _ => exact hlist

/-- Tests for any two ranges are related. -/
private theorem between_related (negated : Bool) (range range' : Calendar.DateRange) :
    R (Predicate.between negated e range) (Predicate.between negated e' range') := by
  refine hR.append (hR.append (hR.append (hR.wrap he (by decide) ?_) (hR.value _ _)) ?_)
    (hR.value _ _)
  · cases negated <;> decide
  · exact hR.text (by decide)

/-- Tests for the rows of related statements are related. -/
private theorem nested_related (negated : Bool) {rows rows' : Fragment} (h : R rows rows') :
    R (Predicate.nested negated e rows) (Predicate.nested negated e' rows') :=
  hR.append (hR.wrap he (by decide) (by cases negated <;> decide)) (hR.parenthesize (hR.closed h))

end Predicates

/-- The symbols of comparisons are neutral. -/
private theorem scanNeutral_comparison {operator : Operator} {symbol : String}
    (h : operator.comparison? = some symbol) : ScanNeutral (" " ++ symbol ++ " ") := by
  cases operator <;> simp only [Operator.comparison?, Option.some.injEq, reduceCtorEq] at h <;>
    subst h <;> decide

/-- Two predicate scopes of one dialect whose statements for related queries are related. -/
structure PredicateScope.Related (R : Fragment → Fragment → Prop) (Q : Query → Query → Prop)
    (p p' : PredicateScope) : Prop where
  dialect : p'.dialect = p.dialect
  nested {q q' : Query} : Q q q' →
    Agree (Statement.Related R p.dialect) (p.nested q) (p'.nested q')

namespace PredicateScope.Related

variable {R : Fragment → Fragment → Prop} (hR : Congruence R) {Q : Query → Query → Prop}
  {p p' : PredicateScope} (hp : p.Related R Q p')

include hR hp

omit hp in
/-- A range of dates becomes a pair of bound values, however it is given. -/
private theorem leaf_range (operator : Operator) (member : String) {payload payload' : Payload}
    (h : payload.isRange) (h' : payload'.isRange) {e e' : Fragment} (he : R e e') :
    Agree R (p.leaf operator member payload e) (p'.leaf operator member payload' e') := by
  -- Which range is meant does not matter: its two dates are bound.
  have hrange (x y : Result Calendar.DateRange) := (show Agree (fun _ _ => True) x y from
    fun _ _ _ _ => trivial).bind fun r r' _ =>
      (Agree.pure (between_related hR he (decide (operator = .notInDateRange)) r r') :
        Agree (ε := Error) R _ _)
  cases payload <;> simp only [Payload.isRange, reduceCtorEq] at h <;>
    cases payload' <;> simp only [Payload.isRange, reduceCtorEq] at h' <;> exact hrange _ _

/-- Alike payloads of one operator give related predicates on related expressions. -/
theorem leaf (operator : Operator) (member : String) {payload payload' : Payload}
    (hpayload : payload.Alike Q payload') {e e' : Fragment} (he : R e e') :
    Agree R (p.leaf operator member payload e) (p'.leaf operator member payload' e') := by
  cases hpayload with
  | none =>
    unfold PredicateScope.leaf
    dsimp only
    split
    · exact .ok (hR.wrap he (by decide) (by decide))
    · exact .ok (hR.wrap he (by decide) (by decide))
    · exact .error_left
  | @values vs ws hlen =>
    unfold PredicateScope.leaf
    dsimp only
    split
    · exact .ok (membership_related hR he false hlen)
    · exact .ok (membership_related hR he false hlen)
    · exact .ok (membership_related hR he true hlen)
    · exact .ok (membership_related hR he true hlen)
    · split
      · rename_i symbol hsymbol
        refine .ok (combine_related hR (by decide) (forall₂_map_of_length hlen ?_))
        exact compare_related hR he (scanNeutral_comparison hsymbol)
      · exact .error_left
  | @strings ss ts hlen =>
    unfold PredicateScope.leaf
    dsimp only
    rw [hp.dialect]
    split
    · rename_i pattern hpattern
      refine .ok (combine_related hR (by split_ifs <;> decide) (forall₂_map_of_length hlen ?_))
      exact fun s t => hR.patternMatch _ pattern he _ _
    · exact .error_left
  | date text text' =>
    unfold PredicateScope.leaf
    dsimp only
    -- The dates may be read differently, but each operator binds one of them.
    have hany (x y : Result Calendar.DateRange) : Agree (fun _ _ => True) x y :=
      fun _ _ _ _ => trivial
    refine (hany _ _).bind fun range range' _ => ?_
    split
    · exact .pure (compare_related hR he (by decide) _ _)
    · exact .pure (compare_related hR he (by decide) _ _)
    · exact .error_left
  | range h h' => exact leaf_range hR operator member h h' he
  | query hq =>
    unfold PredicateScope.leaf
    dsimp only
    -- Related statements select as many columns, so the check for a single one has the same answer.
    refine (hp.nested hq).bind fun s s' hs => ?_
    rw [hs.width, hp.dialect]
    split_ifs
    · exact .error_left
    · exact .pure (nested_related hR he _ (hs.render .compact))

omit hp in
/-- Groups of related predicates are related. -/
private theorem group (connective : Connective) {fs fs' : List Fragment}
    (h : List.Forall₂ R fs fs') :
    Agree R (PredicateScope.group connective fs) (PredicateScope.group connective fs') := by
  have hjoin := hR.parenthesize (hR.join
    (by cases connective <;> decide : ScanNeutral (" " ++ connective.name ++ " ")) h)
  cases h with
  | nil => exact .error_left
  | cons hf hrest =>
    cases hrest with
    | nil => exact .ok hf
    | cons _ _ => exact .ok hjoin

end PredicateScope.Related

section Trees

variable {R : Fragment → Fragment → Prop} {Q : Query → Query → Prop} {p p' : PredicateScope}
  {member member' : String → Result Fragment}

mutual

/-- Alike filters over related expressions of their members give related predicates. -/
theorem PredicateScope.Related.predicate (hR : Congruence R) (hp : p.Related R Q p')
    (hmember : ∀ path, Agree R (member path) (member' path)) :
    {f f' : Filter} → f.Alike Q f' → Agree R (p.predicate member f) (p'.predicate member' f')
  | _, _, .leaf hl => by
    rw [PredicateScope.predicate, PredicateScope.predicate]
    obtain ⟨hoperator, hpath⟩ := hl.operator_eq
    refine hl.check.bind fun payload payload' hpayload => ?_
    rw [hoperator, hpath]
    exact (hmember _).bind fun e e' he => hp.leaf hR _ _ hpayload he
  | _, _, .group connective hchildren => by
    rw [PredicateScope.predicate, PredicateScope.predicate]
    exact (predicates hR hp hmember hchildren).bind fun fs fs' h => group hR connective h

/-- The predicates of filters that are alike are related one by one. -/
theorem PredicateScope.Related.predicates (hR : Congruence R) (hp : p.Related R Q p')
    (hmember : ∀ path, Agree R (member path) (member' path)) :
    {fs fs' : List Filter} → Filter.AlikeAll Q fs fs' →
      Agree (List.Forall₂ R) (p.predicates member fs) (p'.predicates member' fs')
  | _, _, .nil => .ok .nil
  | _, _, .cons hf hrest => by
    rw [PredicateScope.predicates, PredicateScope.predicates]
    exact (predicate hR hp hmember hf).bind fun f f' h =>
      (predicates hR hp hmember hrest).bind fun fs fs' hfs => .pure (.cons h hfs)

end

end Trees

end MetricLayer
