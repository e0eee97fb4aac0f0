import MetricLayer.Query.Basic
import MetricLayer.Repository.Basic

/-!
# Introspection

What the columns of a query's result hold, and the rows of a result with display texts beside their
values.
-/

namespace MetricLayer

/-- What a result column holds. -/
structure ColumnInfo where
  path : String
  kind : MemberKind
  type : ValueType
  /-- How the values are shown. -/
  format : Option Format

/-- The information on a member's column. -/
def Member.columnInfo (m : Member) : ColumnInfo :=
  ⟨m.path, m.kind, m.type, m.format⟩

/-- The columns of a result by their names. -/
abbrev Introspection := List (String × ColumnInfo)

namespace Introspection

/-- Describe a column; an earlier description of a column of the same name is replaced. -/
def describe (columns : Introspection) (name : String) (info : ColumnInfo) : Introspection :=
  match columns with
  | [] => [(name, info)]
  | (n, i) :: rest => if n = name then (name, info) :: rest else (n, i) :: describe rest name info

/-- The names of the described columns. -/
def names (columns : Introspection) : List String :=
  columns.map (·.1)

/-- The description of a column. -/
def column? (columns : Introspection) (name : String) : Option ColumnInfo :=
  columns.lookup name

end Introspection

/-- The columns of a query's result: the requested dimensions, then the requested metrics. -/
def Repository.introspect (r : Repository) (query : Query) : Result Introspection := do
  let members ← (query.dimensions ++ query.metrics).mapM r.member
  return members.foldl (fun columns m => columns.describe m.label m.columnInfo) []

/-- A value of a result with its display text. -/
structure Cell where
  value : Json
  /-- The text to show in place of the value. -/
  text : Option String
deriving DecidableEq, Repr

namespace Introspection

/-- A cell of the named column. Only a column with a format has display texts, and null has none. -/
def cell (columns : Introspection) (name : String) (value : Json) : Cell :=
  match columns.column? name >>= (·.format) with
  | some format => ⟨value, if value = .null then none else some (format.apply value)⟩
  | none => ⟨value, none⟩

/-- A row of a result with display texts. -/
def formatRow (columns : Introspection) (row : List (String × Json)) : List (String × Cell) :=
  row.map fun (name, value) => (name, columns.cell name value)

end Introspection

end MetricLayer
