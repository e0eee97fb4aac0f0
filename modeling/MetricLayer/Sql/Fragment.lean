import MetricLayer.Json.Basic

/-!
# SQL fragments

A fragment is SQL text in which the mark `?` stands for a bound value, together with the values
bound to those marks in order. Text and bindings are kept apart and composed by concatenation, so
the n-th mark should belong to the n-th binding. To make this a statement about fragments, the text
is kept piece by piece, and the piece of a mark remembers the value that it was written for. The
piece of a column likewise remembers the source that the column is read from. A question mark that
is meant literally is written `\?`.
-/

namespace MetricLayer.Sql

/-- A piece of SQL text. -/
inductive Piece
  /-- Text that is emitted as it is. -/
  | text (sql : String)
  /-- A mark, with the value that it was written for. -/
  | mark (value : Json)
  /-- A column of a named source, with the text that stands for it. -/
  | column (source name sql : String)
deriving DecidableEq, Repr

/-- The text of a piece. -/
def Piece.sql : Piece → String
  | .text sql => sql
  | .mark _ => "?"
  | .column _ _ sql => sql

/-- The source and the name of the column that a piece reads. -/
def Piece.reference? : Piece → Option (String × String)
  | .text _ | .mark _ => none
  | .column source name _ => some (source, name)

/-- A piece that has its text but reads no column. -/
def Piece.sealed : Piece → Piece
  | .column _ _ sql => .text sql
  | piece => piece

/-- Text as it is makes one piece, and none where it is empty. -/
instance : Coe String (List Piece) := ⟨fun sql => if sql.isEmpty then [] else [.text sql]⟩

/-- SQL text with the values bound to its marks, in order. -/
structure Fragment where
  /-- The text, with a mark in place of each bound value. -/
  pieces : List Piece
  /-- The bound values. -/
  bindings : List Json
deriving DecidableEq, Repr, Inhabited

namespace Fragment

/-- The text of a fragment. -/
def sql (f : Fragment) : String := String.join (f.pieces.map Piece.sql)

/-- Text without any bound value. -/
def ofText (sql : String) : Fragment := ⟨sql, []⟩

/-- The fragment without text. -/
def empty : Fragment := ofText ""

/-- A column of a named source. -/
def ofColumn (source name sql : String) : Fragment := ⟨[.column source name sql], []⟩

/-- A single bound value. -/
def ofValue (value : Json) : Fragment := ⟨[.mark value], [value]⟩

/-- One fragment after another. -/
def append (f g : Fragment) : Fragment :=
  ⟨f.pieces ++ g.pieces, f.bindings ++ g.bindings⟩

instance : Append Fragment := ⟨append⟩

/-- Whether the fragment has no text. -/
def isEmpty (f : Fragment) : Bool := f.sql.isEmpty

/-- The columns that a fragment reads, each with its source. -/
def references (f : Fragment) : List (String × String) := f.pieces.filterMap Piece.reference?

/-- The fragment as a closed expression: the columns of its text are not read from outside. -/
def sealed (f : Fragment) : Fragment := ⟨f.pieces.map Piece.sealed, f.bindings⟩

/-- Put text before and after a fragment. -/
def wrap (before : String) (f : Fragment) (after : String) : Fragment :=
  ⟨before ++ f.pieces ++ after, f.bindings⟩

/-- Put a fragment in parentheses. -/
def parenthesize (f : Fragment) : Fragment := wrap "(" f ")"

/-- All fragments one after the other. -/
def concat : List Fragment → Fragment
  | [] => empty
  | f :: rest => f ++ concat rest

/-- All fragments one after the other with text between any two. -/
def join (separator : String) : List Fragment → Fragment
  | [] => empty
  | [f] => f
  | f :: rest => f ++ ofText separator ++ join separator rest

end Fragment

end MetricLayer.Sql
