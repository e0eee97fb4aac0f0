import MetricLayer.Proofs.Sql.Scan
import Mathlib.Data.List.Forall2

/-!
# Composed fragments

What composition does to the text and the bindings of fragments, and the relations between
fragments that composition keeps. Every piece of SQL that the compiler writes is composed from
plain text and bound values, so a relation of this kind holds between the results of two compiles
as soon as it holds between what they start from.
-/

namespace MetricLayer.Sql

namespace Fragment

/-! ## Text and bindings -/

/-- Text as it is keeps its characters when it becomes pieces. -/
private theorem join_pieces (s : String) :
    String.join ((s : List Piece).map Piece.sql) = s := by
  by_cases h : s.isEmpty
  · simp [String.isEmpty_iff.1 h]
  · simp [h, Piece.sql]

@[simp]
theorem sql_ofText (s : String) : (ofText s).sql = s := join_pieces s

@[simp]
theorem sql_ofValue (v : Json) : (ofValue v).sql = "?" := by
  simp [sql, ofValue, Piece.sql]

/-- A closed expression has the same text. -/
@[simp]
theorem sql_sealed (f : Fragment) : f.sealed.sql = f.sql := by
  unfold sql sealed
  rw [List.map_map]
  congr 1
  refine List.map_congr_left fun piece _ => ?_
  cases piece <;> rfl

@[simp]
theorem pieces_append (f g : Fragment) : (f ++ g).pieces = f.pieces ++ g.pieces := rfl

@[simp]
theorem bindings_append (f g : Fragment) : (f ++ g).bindings = f.bindings ++ g.bindings := rfl

@[simp]
theorem sql_append (f g : Fragment) : (f ++ g).sql = f.sql ++ g.sql := by
  simp [sql, String.join_append]

@[simp]
theorem bindings_parenthesize (f : Fragment) : f.parenthesize.bindings = f.bindings := rfl

/-- A joined list binds what its members bind, in their order. -/
@[simp]
theorem bindings_join (separator : String) (fs : List Fragment) :
    (join separator fs).bindings = fs.flatMap (·.bindings) := by
  induction fs with
  | nil => rfl
  | cons f rest ih =>
    cases rest with
    | nil => simp [join]
    | cons g rest =>
      rw [join, bindings_append, bindings_append, ih]
      · simp [ofText]
      · simp

/-- Text around a fragment is text before it and text after it. -/
theorem wrap_eq (before : String) (f : Fragment) (after : String) :
    wrap before f after = ofText before ++ f ++ ofText after := by
  change (⟨_, _⟩ : Fragment) = ⟨_, _⟩
  simp [ofText]

end Fragment

/-! ## Relations that composition keeps -/

/-- A relation between fragments that is kept by composition. It relates every neutral text to
itself and any two bound values. -/
structure Congruence (R : Fragment → Fragment → Prop) : Prop where
  /-- Neutral text is related to itself. -/
  text {s : String} : ScanNeutral s → R (.ofText s) (.ofText s)
  /-- A column whose text is neutral is related to itself. -/
  column (source name : String) {s : String} : ScanNeutral s →
    R (.ofColumn source name s) (.ofColumn source name s)
  /-- Bound values are related, whatever they are. -/
  value (v w : Json) : R (.ofValue v) (.ofValue w)
  /-- Concatenation keeps the relation. -/
  append {f f' g g' : Fragment} : R f f' → R g g' → R (f ++ g) (f' ++ g')
  /-- Closed expressions stay related. -/
  closed {f f' : Fragment} : R f f' → R f.sealed f'.sealed

namespace Congruence

variable {R : Fragment → Fragment → Prop} (hR : Congruence R) {f f' : Fragment}

include hR

theorem empty : R .empty .empty := hR.text (by decide)

theorem wrap {before after : String} (hf : R f f') (hbefore : ScanNeutral before)
    (hafter : ScanNeutral after) : R (f.wrap before after) (f'.wrap before after) := by
  rw [Fragment.wrap_eq, Fragment.wrap_eq]
  exact hR.append (hR.append (hR.text hbefore) hf) (hR.text hafter)

theorem parenthesize (hf : R f f') : R f.parenthesize f'.parenthesize :=
  hR.wrap hf (by decide) (by decide)

/-- A relation that every neutral text keeps is kept by a join over related members. -/
theorem join {separator : String} (hsep : ScanNeutral separator) {fs fs' : List Fragment}
    (h : List.Forall₂ R fs fs') :
    R (Fragment.join separator fs) (Fragment.join separator fs') := by
  induction h with
  | nil => exact hR.empty
  | cons hf hrest ih =>
    cases hrest with
    | nil => exact hf
    | cons hg hrest => exact hR.append (hR.append hf (hR.text hsep)) ih

/-! ## Expressions of a dialect -/

theorem granularity (d : Dialect) (g : Granularity) (hf : R f f') :
    R (d.granularity g f) (d.granularity g f') := by
  -- In every dialect a granularity is literal text around the expression.
  cases d <;> cases g <;> exact hR.wrap hf (by decide +kernel) (by decide +kernel)

theorem patternMatch (d : Dialect) (p : PatternMatch) (hf : R f f') (v w : Json) :
    R (d.patternMatch f p v) (d.patternMatch f' p w) := by
  refine hR.append hf (hR.wrap (hR.value v w) ?_ ?_)
  · change ScanNeutral (" " ++ (if p.negated then "not " else "") ++ "ilike" ++ " " ++
      (if p.leadingWildcard then "'%' || " else ""))
    split_ifs <;> decide
  · change ScanNeutral (if p.trailingWildcard then " || '%'" else "")
    split_ifs <;> decide

end Congruence

end MetricLayer.Sql
