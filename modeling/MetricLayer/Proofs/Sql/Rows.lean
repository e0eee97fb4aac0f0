import MetricLayer.Member.Scope
import MetricLayer.Proofs.Segment.Rows
import MetricLayer.Proofs.Sql.Scope

/-!
# Rows of a statement

What the joins and the selected expressions of a statement mean, given the rows of its sources. The
expressions are those by which the root of a query merges its segments:

- a value is a column, or the first of several columns that is not null;
- a condition is a conjunction of equations between values.

They are read off the pieces of a fragment. An equation with a null on a side is unknown, and rows
are joined where the condition is known to hold. The joins themselves are those of `Database.join`.
Conditions on rows, the ordering and the page of a statement are left aside: its rows are those
before a condition, in no order.
-/

namespace MetricLayer

/-! ## Three-valued logic -/

/-- Both conditions hold. -/
def Truth.and : Truth → Truth → Truth
  | .no, _ | _, .no => .no
  | .yes, .yes => .yes
  | _, _ => .unknown

/-- All conditions hold. -/
def Truth.all (ts : List Truth) : Truth := ts.foldr Truth.and .yes

theorem Truth.and_eq_yes {s t : Truth} : s.and t = .yes ↔ s = .yes ∧ t = .yes := by
  cases s <;> cases t <;> decide

theorem Truth.all_eq_yes {ts : List Truth} : Truth.all ts = .yes ↔ ∀ t ∈ ts, t = .yes := by
  induction ts with
  | nil => simp [Truth.all]
  | cons t rest ih =>
    rw [Truth.all, List.foldr_cons, Truth.and_eq_yes, List.forall_mem_cons, ← ih]
    rfl

namespace Sql

/-! ## Reading expressions -/

/-- The columns between the parentheses of a `coalesce`. -/
def readArguments : List Piece → Option (List (String × String))
  | [.column source name _, .text ")"] => some [(source, name)]
  | .column source name _ :: .text ", " :: rest =>
    (readArguments rest).map ((source, name) :: ·)
  | _ => none

/-- The columns of which a value is the first that is not null. A single column stands alone. -/
def readValue : List Piece → Option (List (String × String))
  | [.column source name _] => some [(source, name)]
  | .text "coalesce(" :: rest => readArguments rest
  | _ => none

/-- The two sides of an equation. -/
def readEquation (pieces : List Piece) :
    Option (List (String × String) × List (String × String)) :=
  match pieces.splitOn (.text " = ") with
  | [left, right] => do return (← readValue left, ← readValue right)
  | _ => none

/-- The equations of a conjunction. -/
def readCondition (pieces : List Piece) :
    Option (List (List (String × String) × List (String × String))) :=
  (pieces.splitOn (.text " and ")).mapM readEquation

/-! ## What expressions mean -/

/-- A row of a source: the value of each column, or nothing where it is null. -/
abbrev Row (V : Type) : Type := String → Option V

variable {V : Type}

/-- The first of several columns that is not null. A source that is extended by nulls has nulls in
all columns. -/
def firstValue (columns : List (String × String)) (x : JoinedRow (Row V)) : Option V :=
  columns.findSome? fun column => (x column.1).bind (· column.2)

/-- The value of an expression in a joined row. -/
def Fragment.value (f : Fragment) (x : JoinedRow (Row V)) : Option V :=
  (readValue f.pieces).bind (firstValue · x)

variable [DecidableEq V]

/-- The truth of an equation. -/
def equation : Option V → Option V → Truth
  | some a, some b => if a = b then .yes else .no
  | _, _ => .unknown

/-- An equation holds exactly when both sides have one and the same value, so never on a null. -/
theorem equation_eq_yes {a b : Option V} : equation a b = .yes ↔ ∃ v, a = some v ∧ b = some v := by
  cases a <;> cases b <;> simp [equation, eq_comm]

/-- The truth of a condition in a joined row. -/
def Fragment.truth (f : Fragment) (x : JoinedRow (Row V)) : Truth :=
  match readCondition f.pieces with
  | some equations =>
    Truth.all (equations.map fun e => equation (firstValue e.1 x) (firstValue e.2 x))
  | none => .unknown

/-! ## Joins and selected expressions -/

/-- The rows that a statement has after one more join. -/
def JoinClause.rows (tables : String → List (Row V)) (left : Multiset (JoinedRow (Row V)))
    (clause : JoinClause) : Multiset (JoinedRow (Row V)) :=
  match clause.source.label? with
  | none => 0
  | some label =>
    let on (_ : Nat) (x : JoinedRow (Row V)) : Truth :=
      (clause.condition.map (·.truth x)).getD .yes
    Database.join ⟨fun name => tables name, on, fun _ _ => .unknown⟩
      { parent := label, child := label, join := 0, kind := clause.kind } left (tables label)

/-- The rows of the joined sources of a statement, given the rows of each source by its name. -/
def Statement.joinedRows (st : Statement) (tables : String → List (Row V)) :
    Multiset (JoinedRow (Row V)) :=
  match st.source.bind Source.label? with
  | none => 0
  | some first => st.joins.foldl (JoinClause.rows tables) ((tables first).map (JoinedRow.alone first))

/-- The rows of a statement: the values of its selected expressions, each under its label. -/
def Statement.rows (st : Statement) (tables : String → List (Row V)) :
    Multiset (List (Option String × Option V)) :=
  (st.joinedRows tables).map fun x => st.select.map fun item => (item.label, item.expr.value x)

end Sql

/-! ## Reading what has been written -/

open Sql

/-- Fragments with text between them are pieces with a piece between them. -/
theorem Sql.Fragment.pieces_join {separator : String} (h : separator.isEmpty = false)
    (fs : List Fragment) :
    (Fragment.join separator fs).pieces = [.text separator].intercalate (fs.map (·.pieces)) := by
  induction fs with
  | nil => rfl
  | cons f rest ih =>
    cases rest with
    | nil => simp [Fragment.join]
    | cons g rest => simp [Fragment.join, Fragment.ofText, h, ih]

theorem Sql.Fragment.of_mem_pieces_join {separator : String} {fs : List Fragment} {p : Piece}
    (h : p ∈ (Fragment.join separator fs).pieces) :
    p = .text separator ∨ ∃ f ∈ fs, p ∈ f.pieces := by
  have htext {text : String} (h : p ∈ (Fragment.ofText text).pieces) : p = .text text := by
    by_cases hempty : text.isEmpty <;> simp_all [Fragment.ofText]
  induction fs with
  | nil => simp [Fragment.join, Fragment.empty, Fragment.ofText] at h
  | cons f rest ih =>
    cases rest with
    | nil => exact .inr ⟨f, List.mem_singleton_self f, h⟩
    | cons g rest =>
      -- The piece is one of the first fragment, the separator, or one of what follows.
      rw [Fragment.join, Fragment.pieces_append, Fragment.pieces_append, List.append_assoc,
        List.mem_append, List.mem_append] at h
      · rcases h with h | h | h
        · exact .inr ⟨f, List.mem_cons_self, h⟩
        · exact .inl (htext h)
        · refine (ih h).imp_right ?_
          rintro ⟨f', hf', hp⟩
          exact ⟨f', List.mem_cons_of_mem _ hf', hp⟩
      · simp

namespace CompileScope

variable (scope : CompileScope)

/-- The arguments of a call are read back as the columns they were written from. -/
private theorem readArguments_join {columns : List (String × String)} (hne : columns ≠ []) :
    readArguments ((Fragment.join ", " (columns.map fun c => scope.qualified c.1 c.2)).pieces ++
      [.text ")"]) = some columns := by
  rw [Fragment.pieces_join (by decide), List.map_map]
  induction columns with
  | nil => exact absurd rfl hne
  | cons c rest ih =>
    cases rest with
    | nil => rfl
    | cons next rest => exact congrArg (Option.map (c :: ·)) (ih (by simp))

/-- The first of several columns that is not null is read back. -/
theorem readValue_coalesce {columns : List (String × String)} (hne : columns ≠ []) :
    readValue (coalesce (columns.map fun c => scope.qualified c.1 c.2)).pieces = some columns := by
  match columns with
  | [] => exact absurd rfl hne
  | [c] => rfl
  | c :: next :: rest =>
    rw [← scope.readArguments_join hne]
    rfl

/-- The first of several columns is written with no other words than those of a `coalesce`. -/
theorem text_not_mem_pieces_coalesce {text : String} (h : text ∉ ["coalesce(", ", ", ")"])
    (columns : List (String × String)) :
    .text text ∉ (coalesce (columns.map fun c => scope.qualified c.1 c.2)).pieces := by
  simp only [List.mem_cons, List.not_mem_nil, or_false, not_or] at h
  have hcolumn (c : String × String) : Piece.text text ∉ (scope.qualified c.1 c.2).pieces := by
    simp [CompileScope.qualified, Fragment.ofColumn]
  have hjoin : Piece.text text ∉
      (Fragment.join ", " (columns.map fun c => scope.qualified c.1 c.2)).pieces := by
    intro hmem
    rcases Fragment.of_mem_pieces_join hmem with htext | ⟨f, hf, hmem⟩
    · exact h.2.1 (Piece.text.inj htext)
    · obtain ⟨c, -, rfl⟩ := List.mem_map.1 hf
      exact hcolumn c hmem
  have hwrap : Piece.text text ∉ ((Fragment.join ", " (columns.map fun c =>
      scope.qualified c.1 c.2)).wrap "coalesce(" ")").pieces := by
    simpa [Fragment.wrap, h] using hjoin
  -- A single column is written without the words around it.
  match columns, hwrap with
  | [], hwrap => exact hwrap
  | [c], _ => exact hcolumn c
  | c :: next :: rest, hwrap => exact hwrap

end CompileScope

end MetricLayer
