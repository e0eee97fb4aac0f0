import MetricLayer.Segment.Basic
import Mathlib.Data.Multiset.Bind

/-!
# Rows of joined models

What the joins of a segment mean over an instance of the models: bags of rows, conditions that may
be unknown, and joins applied from left to right.

- `Database` — a bag of rows for each model, and the truth of join conditions and conjuncts;
- `Database.join` — one join: inner, left, full or cross;
- `Database.joinedRows` — all joins of a segment, over rows that pass a test of their model;
- `Database.filter_join` — where a condition on the left side and one on the joined model say
  together what is asked of a joined row, the rows can be filtered before an inner join.
-/

namespace MetricLayer

/-- The truth of a condition, which is unknown where values are missing. -/
inductive Truth
  | yes
  | no
  | unknown
deriving DecidableEq, Repr

/-- A row of joined models: for each model its row, unless the model is not joined or is extended by
nulls. -/
abbrev JoinedRow (Row : Type) : Type := String → Option Row

namespace JoinedRow

variable {Row : Type}

/-- A joined row with the row of one more model. -/
def extend (x : JoinedRow Row) (model : String) (row : Row) : JoinedRow Row :=
  Function.update x model (some row)

/-- The row of a single model. -/
def alone (model : String) (row : Row) : JoinedRow Row :=
  extend (fun _ => none) model row

@[simp]
theorem extend_self (x : JoinedRow Row) (model : String) (row : Row) :
    x.extend model row model = some row := by
  simp [extend]

@[simp]
theorem extend_of_ne (x : JoinedRow Row) {model m : String} (row : Row) (h : m ≠ model) :
    x.extend model row m = x m := by
  simp [extend, h]

@[simp]
theorem alone_self (model : String) (row : Row) : alone model row model = some row :=
  extend_self _ model row

end JoinedRow

/-- An instance of the models of a repository, with what conditions say about joined rows. -/
structure Database (Row : Type) where
  /-- The rows of each model. -/
  rows : String → Multiset Row
  /-- The condition of the declared join at a position. -/
  joins : Nat → JoinedRow Row → Truth
  /-- The condition of the conjunct at a position. -/
  holds : Nat → JoinedRow Row → Truth

namespace Database

variable {Row : Type} (db : Database Row)

/-! ## One join -/

/-- The rows on the right that a join matches with a row on the left. -/
def matching (j : OrientedJoin) (right : Multiset Row) (x : JoinedRow Row) : Multiset Row :=
  right.filter fun row => db.joins j.join (x.extend j.child row) = .yes

/-- A row on the left with each of its matches. -/
def matched (j : OrientedJoin) (right : Multiset Row) (x : JoinedRow Row) :
    Multiset (JoinedRow Row) :=
  (db.matching j right x).map (x.extend j.child)

/-- A row on the left with each of its matches, or alone where it has none. -/
def padded (j : OrientedJoin) (right : Multiset Row) (x : JoinedRow Row) :
    Multiset (JoinedRow Row) :=
  if (db.matching j right x).card = 0 then {x} else db.matched j right x

/-- The rows on the right that no row on the left matches. -/
def unmatched (j : OrientedJoin) (left : Multiset (JoinedRow Row)) (right : Multiset Row) :
    Multiset (JoinedRow Row) :=
  (right.filter fun row => ∀ x ∈ left, db.joins j.join (x.extend j.child row) ≠ .yes).map
    (JoinedRow.alone j.child)

/-- The rows of a join. -/
def join (j : SegmentJoin) (left : Multiset (JoinedRow Row)) (right : Multiset Row) :
    Multiset (JoinedRow Row) :=
  match j.kind with
  | .inner => left.bind (db.matched j.toOrientedJoin right)
  | .left => left.bind (db.padded j.toOrientedJoin right)
  | .full => left.bind (db.padded j.toOrientedJoin right) + db.unmatched j.toOrientedJoin left right
  | .cross => left.bind fun x => right.map (x.extend j.child)

/-- A row on the left with a match is joined, whatever the kind of the join. -/
theorem extend_mem_join {j : SegmentJoin} {left : Multiset (JoinedRow Row)} {right : Multiset Row}
    {x : JoinedRow Row} {row : Row} (hx : x ∈ left) (hrow : row ∈ right)
    (hmatch : db.joins j.join (x.extend j.child row) = .yes) :
    x.extend j.child row ∈ db.join j left right := by
  have hmatching : row ∈ db.matching j.toOrientedJoin right x :=
    Multiset.mem_filter.2 ⟨hrow, hmatch⟩
  have hmatched : x.extend j.child row ∈ db.matched j.toOrientedJoin right x :=
    Multiset.mem_map_of_mem _ hmatching
  have hpadded : x.extend j.child row ∈ db.padded j.toOrientedJoin right x := by
    have hcard := Multiset.card_pos_iff_exists_mem.2 ⟨row, hmatching⟩
    rw [padded, if_neg (by omega)]
    exact hmatched
  unfold join
  cases j.kind with
  | inner => exact Multiset.mem_bind.2 ⟨x, hx, hmatched⟩
  | left => exact Multiset.mem_bind.2 ⟨x, hx, hpadded⟩
  | full => exact Multiset.mem_add.2 (.inl (Multiset.mem_bind.2 ⟨x, hx, hpadded⟩))
  | cross => exact Multiset.mem_bind.2 ⟨x, hx, Multiset.mem_map_of_mem _ hrow⟩

/-- Nothing is joined with nothing. -/
@[simp]
theorem join_zero (j : SegmentJoin) : db.join j 0 0 = 0 := by
  unfold join
  cases j.kind <;> simp [unmatched]

/-- A full join keeps the rows on the right where there is nothing on the left. -/
theorem alone_mem_join_of_full {j : SegmentJoin} (hkind : j.kind = .full) {right : Multiset Row}
    {row : Row} (hrow : row ∈ right) : JoinedRow.alone j.child row ∈ db.join j 0 right := by
  simp only [join, hkind]
  refine Multiset.mem_add.2 (.inr (Multiset.mem_map_of_mem _ (Multiset.mem_filter.2 ⟨hrow, ?_⟩)))
  simp

/-- Joined rows all of which meet a condition or none. -/
private theorem filter_eq_ite {s : Multiset (JoinedRow Row)} {q : JoinedRow Row → Prop}
    [DecidablePred q] {p : Prop} [Decidable p] (h : ∀ y ∈ s, q y ↔ p) :
    s.filter q = if p then s else 0 := by
  split_ifs with hp
  · exact Multiset.filter_eq_self.2 fun y hy => (h y hy).2 hp
  · exact Multiset.filter_eq_nil.2 fun y hy hq => hp ((h y hy).1 hq)

section Filter

variable {j : SegmentJoin} {left : Multiset (JoinedRow Row)} {right : Multiset Row}
  {p q : JoinedRow Row → Prop} [DecidablePred p] [DecidablePred q] {r : Row → Prop}
  [DecidablePred r]

/-- An inner join of filtered rows: what is asked of a joined row is asked of its two sides. -/
theorem filter_join_inner (hkind : j.kind = .inner)
    (h : ∀ x ∈ left, ∀ row ∈ right, q (x.extend j.child row) ↔ p x ∧ r row) :
    (db.join j left right).filter q = db.join j (left.filter p) (right.filter r) := by
  simp only [join, hkind]
  rw [Multiset.filter_bind, Multiset.bind_filter]
  refine Multiset.bind_congr fun x hx => ?_
  unfold matched matching
  rw [Multiset.filter_map, Multiset.filter_filter]
  split_ifs with hp
  · congr 1
    rw [Multiset.filter_filter]
    refine Multiset.filter_congr fun row hrow => ?_
    simp only [Function.comp_apply, h x hx row hrow, hp, true_and]
    exact and_comm
  · rw [Multiset.filter_eq_nil.2, Multiset.map_zero]
    intro row hrow hq
    exact hp ((h x hx row hrow).1 hq.1).1

/-- A left join of filtered rows: what is asked of a joined row is asked of its left side, with or
without a match. -/
theorem filter_join_left (hkind : j.kind = .left)
    (h : ∀ x ∈ left, (q x ↔ p x) ∧ ∀ row, q (x.extend j.child row) ↔ p x) :
    (db.join j left right).filter q = db.join j (left.filter p) right := by
  simp only [join, hkind]
  rw [Multiset.filter_bind, Multiset.bind_filter]
  refine Multiset.bind_congr fun x hx => ?_
  apply filter_eq_ite
  intro y hy
  unfold padded at hy
  split_ifs at hy
  · rw [Multiset.mem_singleton.1 hy]
    exact (h x hx).1
  · obtain ⟨row, -, rfl⟩ := Multiset.mem_map.1 hy
    exact (h x hx).2 row

end Filter

/-! ## All joins -/

/-- The rows of the models of a segment that pass a test, joined from left to right. -/
def joinedRows (test : String → Row → Bool) (anchor : String) (joins : List SegmentJoin) :
    Multiset (JoinedRow Row) :=
  joins.foldl (fun left j => db.join j left ((db.rows j.child).filter (test j.child ·)))
    (((db.rows anchor).filter (test anchor ·)).map (JoinedRow.alone anchor))

/-- Without conditions the joined rows are those of the joins alone. -/
theorem joinedRows_true (anchor : String) (joins : List SegmentJoin) :
    db.joinedRows (fun _ _ => true) anchor joins =
      joins.foldl (fun left j => db.join j left (db.rows j.child))
        ((db.rows anchor).map (JoinedRow.alone anchor)) := by
  simp [joinedRows]

end Database

end MetricLayer
