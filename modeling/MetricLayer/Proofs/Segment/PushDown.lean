import MetricLayer.Proofs.Segment.Expand
import MetricLayer.Proofs.Segment.Rows

/-!
# Pushing conditions down

A segment evaluates some of its conditions in the statements of its models, before the joins. Over
all instances of the models this gives the same bag of joined rows as evaluating every condition
after the joins, exactly where no full join comes after a model that has such a condition: a full
join brings back rows whose match the condition has removed.

- `Database.pushedRows`, `Database.plainRows` — the joined rows with and without push-down;
- `Database.join_passing` — one join keeps the rows that meet the conditions of the models so far;
- `CompileScope.pushedRows_eq_plainRows_iff` — when push-down preserves the joined rows.
-/

namespace MetricLayer

namespace Database

variable {Row : Type} (db : Database Row)

/-- Whether a row meets the conditions that a segment evaluates in the statement of its model. -/
def passes (s : Segment) (model : String) (row : Row) : Bool :=
  ∀ p ∈ s.filters, p.placement = .model model → db.holds p.conjunct (.alone model row) = .yes

/-- The joined rows of a segment: each model is filtered by its own conditions before the joins, and
the result by those of the segment. -/
def pushedRows (s : Segment) : Multiset (JoinedRow Row) :=
  (db.joinedRows (db.passes s) s.anchor s.joins).filter fun x =>
    ∀ p ∈ s.filters, p.placement = .segment → db.holds p.conjunct x = .yes

/-- The joined rows of a segment that meet all conditions on dimensions. -/
def plainRows (s : Segment) : Multiset (JoinedRow Row) :=
  (db.joinedRows (fun _ _ => true) s.anchor s.joins).filter fun x =>
    ∀ p ∈ s.filters, db.holds p.conjunct x = .yes

/-- Conditions see only the models that they read: a join condition its two models, a conjunct those
of its members. -/
structure Respects (db : Database Row) (scope : CompileScope) (conjuncts : List Conjunct)
    (s : Segment) : Prop where
  joins : ∀ j ∈ s.joins, ∀ x y : JoinedRow Row, x j.parent = y j.parent → x j.child = y j.child →
    db.joins j.join x = db.joins j.join y
  holds : ∀ (i : Nat) (c : Conjunct) (read : List String), conjuncts[i]? = some c →
    scope.allModelsRead c.members = .ok read → ∀ x y : JoinedRow Row, (∀ m ∈ read, x m = y m) →
      db.holds i x = db.holds i y

end Database

/-- No full join comes after a model that has a condition of its own. -/
def Segment.FullJoinsFirst (s : Segment) : Prop :=
  ∀ before j after, s.joins = before ++ j :: after → j.kind = .full →
    ∀ p ∈ s.filters, ∀ m ∈ s.anchor :: before.map (·.child), p.placement ≠ .model m

/-! ## Conditions before the joins -/

namespace Database

variable {Row : Type} {db : Database Row} {s : Segment}

/-- A joined row meets the conditions of the given models. -/
def Meets (db : Database Row) (s : Segment) (known : List String) (x : JoinedRow Row) : Prop :=
  ∀ p ∈ s.filters, p.placement ∈ known.map Placement.model → db.holds p.conjunct x = .yes

instance (known : List String) : DecidablePred (db.Meets s known) := fun x =>
  inferInstanceAs (Decidable (∀ p ∈ s.filters, _ → db.holds p.conjunct x = .yes))

/-- A row meets the conditions of one model more when it meets those of that model too. -/
theorem meets_snoc {known : List String} {m : String} {x : JoinedRow Row} :
    db.Meets s (known ++ [m]) x ↔ db.Meets s known x ∧
      ∀ p ∈ s.filters, p.placement = .model m → db.holds p.conjunct x = .yes := by
  unfold Meets
  simp only [List.map_append, List.mem_append, List.map_singleton, List.mem_singleton]
  constructor
  · intro h
    exact ⟨fun p hp hmem => h p hp (.inl hmem), fun p hp hm => h p hp (.inr hm)⟩
  · rintro ⟨hknown, hm⟩ p hp (hmem | heq)
    · exact hknown p hp hmem
    · exact hm p hp heq

/-- No declaration asks for a cross join. -/
private theorem joinKind_ne_cross (kind : Option DeclaredKind) :
    DeclaredKind.joinKind kind ≠ .cross := by
  rcases kind with _ | (_ | _) <;> simp [DeclaredKind.joinKind]

section Segment

variable {scope : CompileScope} {label : String} {group : SegmentGroup} {dimensions : List Member}
  {conjuncts : List Conjunct} (hs : scope.IsSegment label group dimensions conjuncts s)

include hs

/-- No condition is pushed down to a model behind an outer join. -/
theorem placement_ne_of_outer {before after : List SegmentJoin} {j : SegmentJoin}
    (hsplit : s.joins = before ++ j :: after) (hkind : j.kind ≠ .inner) {p : PlacedFilter}
    (hp : p ∈ s.filters) : p.placement ≠ .model j.child := by
  intro hplace
  have hmem : j ∈ s.joins := by simp [hsplit]
  have hnodup := hs.growFrom.nodup (List.nodup_singleton s.anchor)
  rw [List.map_map] at hnodup
  obtain ⟨hanchor, hchildren⟩ := List.nodup_cons.1 hnodup
  rcases hs.of_placed_model hp hplace with heq | ⟨j', hj', hinner, hchild⟩
  · exact hanchor (heq ▸ List.mem_map_of_mem hmem)
  · obtain rfl := List.inj_on_of_nodup_map hchildren hj' hmem hchild
    exact hkind hinner

variable (hdb : db.Respects scope conjuncts s)

include hdb

/-- A condition that is pushed down sees its model only. -/
theorem holds_congr {p : PlacedFilter} (hp : p ∈ s.filters) {m : String}
    (hplace : p.placement = .model m) {x y : JoinedRow Row} (hxy : x m = y m) :
    db.holds p.conjunct x = db.holds p.conjunct y := by
  obtain ⟨c, hc, hplacement⟩ := hs.exists_conjunct hp
  rw [hplace] at hplacement
  obtain ⟨-, read, hread, hmem⟩ := CompileScope.of_placement_model hplacement
  refine hdb.holds _ c read hc hread x y fun b hb => ?_
  rw [(hmem b).1 hb]
  exact hxy

/-- A further model does not matter to the conditions of the models before it. -/
theorem meets_extend {known : List String} {m : String} (hm : m ∉ known) (x : JoinedRow Row)
    (row : Row) : db.Meets s known (x.extend m row) ↔ db.Meets s known x := by
  have hsame : ∀ p ∈ s.filters, p.placement ∈ known.map Placement.model →
      db.holds p.conjunct (x.extend m row) = db.holds p.conjunct x := by
    intro p hp hplace
    obtain ⟨m', hm', hplace⟩ := List.mem_map.1 hplace
    refine holds_congr hs hdb hp hplace.symm (JoinedRow.extend_of_ne x row ?_)
    rintro rfl
    exact hm hm'
  constructor
  · intro h p hp hplace
    rw [← hsame p hp hplace]
    exact h p hp hplace
  · intro h p hp hplace
    rw [hsame p hp hplace]
    exact h p hp hplace

/-- One join of filtered rows gives the joined rows that meet the conditions of all models so far. -/
theorem join_passing (hfirst : s.FullJoinsFirst) {before after : List SegmentJoin}
    {j : SegmentJoin} (hsplit : s.joins = before ++ j :: after) (left : Multiset (JoinedRow Row)) :
    (db.join j left (db.rows j.child)).filter
        (db.Meets s (s.anchor :: before.map (·.child) ++ [j.child])) =
      db.join j (left.filter (db.Meets s (s.anchor :: before.map (·.child))))
        ((db.rows j.child).filter (db.passes s j.child ·)) := by
  have hnew : j.child ∉ s.anchor :: before.map (·.child) := by
    have hgrow := hs.growFrom
    rw [hsplit, List.map_append, GrowFrom.append_iff, List.map_map] at hgrow
    exact hgrow.2.2.1
  have hextend := meets_extend hs hdb hnew
  -- Outer joins lead to models without conditions of their own.
  have houter (hkind : j.kind ≠ .inner) (known : List String) (x : JoinedRow Row) :
      db.Meets s (known ++ [j.child]) x ↔ db.Meets s known x := by
    rw [meets_snoc, and_iff_left]
    intro p hp hplace
    exact absurd hplace (placement_ne_of_outer hs hsplit hkind hp)
  have hall (hkind : j.kind ≠ .inner) :
      (db.rows j.child).filter (db.passes s j.child ·) = db.rows j.child := by
    refine Multiset.filter_eq_self.2 fun row _ => decide_eq_true ?_
    intro p hp hplace
    exact absurd hplace (placement_ne_of_outer hs hsplit hkind hp)
  cases hkind : j.kind with
  | inner =>
    apply db.filter_join_inner hkind
    intro x _ row _
    rw [meets_snoc, hextend x row]
    refine and_congr_right fun _ => ?_
    unfold passes
    rw [decide_eq_true_iff]
    refine forall₃_congr fun p hp hplace => ?_
    have hsame : x.extend j.child row j.child = JoinedRow.alone j.child row j.child := by simp
    rw [holds_congr hs hdb hp hplace hsame]
  | left =>
    have hne : j.kind ≠ .inner := by rw [hkind]; decide
    rw [hall hne]
    apply db.filter_join_left hkind
    intro x _
    refine ⟨houter hne _ x, fun row => ?_⟩
    rw [houter hne, hextend x row]
  | full =>
    have hne : j.kind ≠ .inner := by rw [hkind]; decide
    have htrue (x : JoinedRow Row) : db.Meets s (s.anchor :: before.map (·.child)) x := by
      intro p hp hplace
      obtain ⟨m, hm, hplace⟩ := List.mem_map.1 hplace
      exact absurd hplace.symm (hfirst before j after hsplit hkind p hp m hm)
    rw [hall hne, Multiset.filter_eq_self.2 fun x _ => htrue x,
      Multiset.filter_eq_self.2 fun x _ => (houter hne _ x).2 (htrue x)]
  | cross =>
    obtain ⟨declared, -, hdeclared⟩ := hs.kinds j (by simp [hsplit])
    rw [hkind] at hdeclared
    exact absurd hdeclared.symm (joinKind_ne_cross declared.kind)

/-- The joins that remain lead from filtered rows to filtered rows. -/
private theorem foldl_join_passing (hfirst : s.FullJoinsFirst) {before after : List SegmentJoin}
    (hsplit : s.joins = before ++ after) (left : Multiset (JoinedRow Row)) :
    (after.foldl (fun left j => db.join j left (db.rows j.child)) left).filter
        (db.Meets s (s.anchor :: s.joins.map (·.child))) =
      after.foldl (fun left j => db.join j left ((db.rows j.child).filter (db.passes s j.child ·)))
        (left.filter (db.Meets s (s.anchor :: before.map (·.child)))) := by
  -- Induction on the joins that remain; those that are done decide which conditions count.
  induction after generalizing before left with
  | nil => rw [hsplit, List.append_nil]; rfl
  | cons j rest ih =>
    have hstep := join_passing hs hdb hfirst hsplit left
    have hsplit' : s.joins = before ++ [j] ++ rest := by rw [hsplit, List.append_assoc]; rfl
    have hrest := ih hsplit' (db.join j left (db.rows j.child))
    rw [List.foldl_cons, List.foldl_cons, hrest, ← hstep, List.map_append]
    rfl

/-- Where no full join comes after a model with a condition, push-down changes nothing. -/
theorem pushedRows_eq_plainRows (hfirst : s.FullJoinsFirst) : db.pushedRows s = db.plainRows s := by
  have hstart : ((db.rows s.anchor).map (JoinedRow.alone s.anchor)).filter
      (db.Meets s [s.anchor]) =
        ((db.rows s.anchor).filter (db.passes s s.anchor ·)).map (JoinedRow.alone s.anchor) := by
    rw [Multiset.filter_map]
    congr 1
    refine Multiset.filter_congr fun row _ => ?_
    rw [Function.comp_apply, ← List.nil_append [s.anchor], meets_snoc, passes, decide_eq_true_iff]
    exact and_iff_right (by simp [Meets])
  have hrows := foldl_join_passing hs hdb hfirst (List.nil_append s.joins).symm
    ((db.rows s.anchor).map (JoinedRow.alone s.anchor))
  rw [List.map_nil, hstart] at hrows
  unfold pushedRows plainRows
  rw [joinedRows_true, joinedRows, ← hrows, Multiset.filter_filter]
  refine Multiset.filter_congr fun x _ => ?_
  constructor
  · -- A condition is one of the segment, or one of a model that has been joined.
    rintro ⟨hsegment, hmodels⟩ p hp
    cases hplace : p.placement with
    | segment => exact hsegment p hp hplace
    | model m =>
      refine hmodels p hp (hplace ▸ List.mem_map_of_mem (List.mem_cons.2 ?_))
      rcases hs.of_placed_model hp hplace with heq | ⟨j, hj, -, hchild⟩
      · exact .inl heq
      · exact .inr (List.mem_map.2 ⟨j, hj, hchild⟩)
  · intro h
    exact ⟨fun p hp _ => h p hp, fun p hp _ => h p hp⟩

end Segment

/-! ## A full join behind a condition -/

/-- The row of the model that a place names takes part in a joined row. -/
private def PresentAt (x : JoinedRow Unit) : Placement → Prop
  | .model m => x m ≠ none
  | .segment => True

private instance (x : JoinedRow Unit) : DecidablePred (PresentAt x)
  | .model m => inferInstanceAs (Decidable (x m ≠ none))
  | .segment => inferInstanceAs (Decidable True)

/-- Some models are empty, all others have one row, and every row is joined with every other. A
condition that is pushed down asks for a row of its model. -/
private def sparse (s : Segment) (empty : List String) : Database Unit where
  rows m := if m ∈ empty then 0 else {()}
  joins _ _ := .yes
  holds i x := if ∀ p ∈ s.filters, p.conjunct = i → PresentAt x p.placement then .yes else .no

section Sparse

variable {scope : CompileScope} {label : String} {group : SegmentGroup} {dimensions : List Member}
  {conjuncts : List Conjunct} (hs : scope.IsSegment label group dimensions conjuncts s)

include hs

private theorem sparse_respects (empty : List String) :
    (sparse s empty).Respects scope conjuncts s := by
  refine ⟨fun _ _ _ _ _ _ => rfl, fun i c read hc hread x y hxy => ?_⟩
  have hiff : (∀ p ∈ s.filters, p.conjunct = i → PresentAt x p.placement) ↔
      ∀ p ∈ s.filters, p.conjunct = i → PresentAt y p.placement := by
    refine forall₃_congr fun p hp hposition => ?_
    cases hplace : p.placement with
    | segment => exact Iff.rfl
    | model m =>
      -- The conjunct reads the model to which it is pushed down.
      obtain ⟨c', hc', hplacement⟩ := hs.exists_conjunct hp
      rw [hposition, hc] at hc'
      obtain rfl := Option.some.inj hc'
      rw [hplace] at hplacement
      obtain ⟨-, read', hread', hmem⟩ := CompileScope.of_placement_model hplacement
      obtain rfl := Except.ok.inj (hread.symm.trans hread')
      simp only [PresentAt, hxy m ((hmem m).2 rfl)]
  simp only [sparse, hiff]

/-- In such an instance a condition asks for a row at its own place. -/
private theorem sparse_holds {empty : List String} {p : PlacedFilter} (hp : p ∈ s.filters)
    (x : JoinedRow Unit) :
    (sparse s empty).holds p.conjunct x = .yes ↔ PresentAt x p.placement := by
  have hiff : (∀ p' ∈ s.filters, p'.conjunct = p.conjunct → PresentAt x p'.placement) ↔
      PresentAt x p.placement := by
    constructor
    · intro h
      exact h p hp rfl
    · intro h p' hp' hposition
      rw [hs.placement_eq hp' hp hposition]
      exact h
  simp only [sparse, hiff, ite_eq_left_iff, reduceCtorEq, imp_false, not_not]

omit hs in
private theorem foldl_sparse_empty {empty : List String} {joins : List SegmentJoin}
    (h : ∀ j ∈ joins, j.child ∈ empty) :
    joins.foldl (fun left j => (sparse s empty).join j left ((sparse s empty).rows j.child)) 0 =
      0 := by
  induction joins with
  | nil => rfl
  | cons j rest ih =>
    obtain ⟨hj, hrest⟩ := List.forall_mem_cons.1 h
    have hrows : (sparse s empty).rows j.child = 0 := if_pos hj
    rw [List.foldl_cons, hrows, join_zero]
    exact ih hrest

omit hs in
/-- A row without a model is still there after joins that lead to other models. -/
private theorem exists_mem_foldl_sparse {empty : List String} {m : String}
    {joins : List SegmentJoin} (hnew : ∀ j ∈ joins, j.child ∉ empty)
    (hother : ∀ j ∈ joins, j.child ≠ m) {left : Multiset (JoinedRow Unit)} {x : JoinedRow Unit}
    (hx : x ∈ left) (hm : x m = none) :
    ∃ y ∈ joins.foldl (fun left j =>
      (sparse s empty).join j left ((sparse s empty).rows j.child)) left, y m = none := by
  induction joins generalizing left x with
  | nil => exact ⟨x, hx, hm⟩
  | cons j rest ih =>
    obtain ⟨hj, hrest⟩ := List.forall_mem_cons.1 hnew
    obtain ⟨hne, hothers⟩ := List.forall_mem_cons.1 hother
    have hrow : () ∈ (sparse s empty).rows j.child := by simp [sparse, hj]
    refine ih hrest hothers ((sparse s empty).extend_mem_join hx hrow rfl) ?_
    rw [JoinedRow.extend_of_ne x () hne.symm]
    exact hm

/-- With a full join behind a model that has a condition, an instance tells push-down from
filtering after the joins. -/
private theorem exists_pushedRows_ne {before after : List SegmentJoin} {j : SegmentJoin}
    (hsplit : s.joins = before ++ j :: after) (hkind : j.kind = .full) {p : PlacedFilter}
    (hp : p ∈ s.filters) {m : String} (hm : m ∈ s.anchor :: before.map (·.child))
    (hplace : p.placement = .model m) :
    ∃ db : Database Unit, db.Respects scope conjuncts s ∧ db.pushedRows s ≠ db.plainRows s := by
  set empty := s.anchor :: before.map (·.child) with hempty
  have hnodup := hs.growFrom.nodup (List.nodup_singleton s.anchor)
  rw [List.map_map, hsplit, List.map_append, List.map_cons, ← List.append_assoc,
    List.singleton_append, List.nodup_append] at hnodup
  obtain ⟨-, -, hapart⟩ := hnodup
  have hnew : ∀ k ∈ j :: after, k.child ∉ empty := by
    intro k hk hmem
    exact hapart _ hmem _ (List.mem_map_of_mem hk) rfl
  -- Up to the full join there is nothing. The full join then brings a row without the model that
  -- has the condition, and that row stays.
  obtain ⟨y, hy, hnone⟩ : ∃ y ∈ (sparse s empty).joinedRows (fun _ _ => true) s.anchor s.joins,
      y m = none := by
    have hanchor : (sparse s empty).rows s.anchor = 0 := if_pos List.mem_cons_self
    have hbefore : ∀ k ∈ before, k.child ∈ empty := fun k hk =>
      List.mem_cons_of_mem _ (List.mem_map_of_mem hk)
    have hrow : () ∈ (sparse s empty).rows j.child := by
      simp [sparse, hnew j List.mem_cons_self]
    have hne : ∀ k ∈ j :: after, k.child ≠ m := by
      rintro k hk rfl
      exact hnew k hk hm
    rw [joinedRows_true, hanchor, Multiset.map_zero, hsplit, List.foldl_append,
      foldl_sparse_empty hbefore, List.foldl_cons]
    refine exists_mem_foldl_sparse (fun k hk => hnew k (List.mem_cons_of_mem _ hk))
      (fun k hk => hne k (List.mem_cons_of_mem _ hk))
      ((sparse s empty).alone_mem_join_of_full hkind hrow) ?_
    exact JoinedRow.extend_of_ne _ () (hne j List.mem_cons_self).symm
  have hpasses : (sparse s empty).passes s = fun _ _ => true := by
    funext m' row
    refine decide_eq_true fun p' hp' hplace' => ?_
    rw [sparse_holds hs hp', hplace']
    simp [PresentAt]
  refine ⟨sparse s empty, sparse_respects hs empty, fun heq => ?_⟩
  have hpushed : y ∈ (sparse s empty).pushedRows s := by
    unfold pushedRows
    rw [hpasses]
    refine Multiset.mem_filter.2 ⟨hy, fun p' hp' hplace' => ?_⟩
    rw [sparse_holds hs hp', hplace']
    trivial
  rw [heq] at hpushed
  have hpresent := (sparse_holds hs hp y).1 ((Multiset.mem_filter.1 hpushed).2 p hp)
  rw [hplace] at hpresent
  exact hpresent hnone

end Sparse

end Database

namespace CompileScope

variable {scope : CompileScope}

/-- Evaluating conditions in the statements of models gives the same joined rows as evaluating all
of them after the joins, over every instance of the models, exactly where no full join of the
segment comes after a model that has such a condition. -/
theorem pushedRows_eq_plainRows_iff {query : Query} {e : Expansion}
    (hexpand : scope.expand query = .ok e) {s : Segment} (hmem : s ∈ e.segments) :
    (∀ (Row : Type) (db : Database Row), db.Respects scope e.conjuncts s →
      db.pushedRows s = db.plainRows s) ↔ s.FullJoinsFirst := by
  obtain ⟨label, group, -, hs⟩ := (isExpansion_of_expand hexpand).exists_group hmem
  constructor
  · intro h before j after hsplit hkind p hp m hm hplace
    obtain ⟨db, hdb, hne⟩ := Database.exists_pushedRows_ne hs hsplit hkind hp hm hplace
    exact hne (h Unit db hdb)
  · intro hfirst Row db hdb
    exact Database.pushedRows_eq_plainRows hs hdb hfirst

/-- Two models that a join of the given kind connects. -/
private def ordersAndPayments (kind : Option DeclaredKind) : CompileScope where
  repository := {
    models := [
      { name := "orders"
        source := .table "orders"
        dimensions := [{ name := "id", primaryKey := true }, { name := "status" }] },
      { name := "payments"
        source := .table "payments"
        dimensions := [{ name := "id", primaryKey := true }, { name := "order_id" }] }]
    joins := [
      { origin := "orders"
        target := "payments"
        cardinality := .oneToOne
        kind := kind
        condition := fun s => [s.originDimension "id", .sql " = ", s.targetDimension "order_id"] }] }
  dialect := .ansi
  context := .null
  now := ⟨⟨2024, 1, 1⟩, .midnight⟩

/-- Payments with the status of their orders, for open orders. -/
private def openOrders : Query where
  dimensions := ["orders.status", "payments.id"]
  filter := some (.leaf ⟨.equals, "orders.status", some (.string "open")⟩)

private theorem exists_segment {kind : Option DeclaredKind} {joinKind : Sql.JoinKind}
    (h : ((ordersAndPayments kind).expand openOrders).toOption.map (fun e =>
      e.segments.map fun s => (s.anchor, s.joins, s.filters)) =
        some [("orders", [⟨⟨"orders", "payments", 0⟩, joinKind⟩], [⟨0, .model "orders"⟩])]) :
    ∃ e s, (ordersAndPayments kind).expand openOrders = .ok e ∧ s ∈ e.segments ∧
      s.anchor = "orders" ∧ s.joins = [⟨⟨"orders", "payments", 0⟩, joinKind⟩] ∧
      s.filters = [⟨0, .model "orders"⟩] := by
  cases he : (ordersAndPayments kind).expand openOrders with
  | error err => rw [he] at h; cases h
  | ok e =>
    rw [he] at h
    obtain ⟨s, hs, hparts⟩ := List.map_eq_singleton_iff.1 (Option.some.inj h)
    simp only [Prod.mk.injEq] at hparts
    exact ⟨e, s, rfl, by simp [hs], hparts⟩

/-- Over a left join the condition on orders may be pushed down. -/
theorem pushedRows_eq_plainRows_of_left : ∃ e s,
    (ordersAndPayments none).expand openOrders = .ok e ∧ s ∈ e.segments ∧
      s.filters = [⟨0, .model "orders"⟩] ∧ s.FullJoinsFirst ∧
      ∀ (Row : Type) (db : Database Row), db.Respects (ordersAndPayments none) e.conjuncts s →
        db.pushedRows s = db.plainRows s := by
  obtain ⟨e, s, he, hs, -, hjoins, hfilters⟩ := @exists_segment none .left (by decide +kernel)
  have hfirst : s.FullJoinsFirst := by
    intro before j after hsplit hkind
    have hj : j ∈ s.joins := by simp [hsplit]
    rw [hjoins, List.mem_singleton] at hj
    rw [hj] at hkind
    cases hkind
  exact ⟨e, s, he, hs, hfilters, hfirst, (pushedRows_eq_plainRows_iff he hs).2 hfirst⟩

/-- One order that is not open, and its payment. -/
private def closedOrder : Database Bool where
  rows _ := {false}
  joins _ x := if x "orders" ≠ none ∧ x "payments" ≠ none then .yes else .unknown
  holds _ x :=
    match x "orders" with
    | some true => .yes
    | some false => .no
    | none => .unknown

/-- Over a full join the payment of an order that is not open comes back without its order. -/
theorem pushedRows_ne_plainRows_of_full : ∃ r e s,
    Repository.build r.models r.joins = .ok r ∧
      (ordersAndPayments (some .full)).repository = r ∧
      (ordersAndPayments (some .full)).expand openOrders = .ok e ∧ s ∈ e.segments ∧
      closedOrder.Respects (ordersAndPayments (some .full)) e.conjuncts s ∧
      closedOrder.pushedRows s ≠ closedOrder.plainRows s := by
  obtain ⟨e, s, he, hs, hanchor, hjoins, hfilters⟩ := @exists_segment (some .full) .full
    (by decide +kernel)
  have hread : ((ordersAndPayments (some .full)).expand openOrders).toOption.map (fun e =>
      e.conjuncts.map fun c => ((ordersAndPayments (some .full)).allModelsRead c.members).toOption) =
        some [some ["orders"]] := by decide +kernel
  rw [he] at hread
  obtain ⟨c, hconjuncts, hread⟩ := List.map_eq_singleton_iff.1 (Option.some.inj hread)
  refine ⟨_, e, s, rfl, rfl, he, hs, ⟨?_, ?_⟩, fun heq => ?_⟩
  · intro j hj x y hparent hchild
    rw [hjoins, List.mem_singleton] at hj
    subst hj
    dsimp only at hparent hchild
    simp only [closedOrder, hparent, hchild]
  · intro i c' read hc' hread' x y hxy
    have hc : c' = c := by
      have hmem := List.mem_of_getElem? hc'
      rwa [hconjuncts, List.mem_singleton] at hmem
    rw [← hc, hread'] at hread
    obtain rfl := Option.some.inj hread
    simp only [closedOrder, hxy "orders" (by simp)]
  · have hcard := congrArg Multiset.card heq
    unfold Database.pushedRows Database.plainRows Database.passes Database.joinedRows at hcard
    rw [hanchor, hjoins, hfilters] at hcard
    revert hcard
    decide

end CompileScope

end MetricLayer
