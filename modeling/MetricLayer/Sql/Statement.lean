import MetricLayer.Sql.Token

/-!
# Select statements

A statement reads a source, which may itself be a statement, and joins further sources to it. Its
tokens are produced clause by clause, either on one line or with each clause and each selected
item on a line of its own, indented by nesting depth.
-/

namespace MetricLayer.Sql

/-- A selected expression with an optional label. -/
structure SelectItem where
  /-- The expression. -/
  expr : Fragment
  /-- The name of the column. -/
  label : Option String := none
deriving DecidableEq, Repr

/-- The kind of a join. -/
inductive JoinKind
  | inner
  | left
  | full
  | cross
deriving DecidableEq, Repr

/-- The direction of an ordering. -/
inductive SortDirection
  | asc
  | desc
deriving DecidableEq, Repr

/-- An ordering expression. -/
structure OrderItem where
  /-- The expression. -/
  expr : Fragment
  /-- The direction. -/
  direction : SortDirection
deriving DecidableEq, Repr

mutual

/-- What a statement reads from or joins. -/
inductive Source where
  /-- A table; the parts of its name between points are quoted one by one. -/
  | table (name : String) (label : Option String)
  /-- SQL text that stands in parentheses. -/
  | raw (sql : Fragment) (label : Option String)
  /-- A statement, under its own label. -/
  | statement (inner : Statement)

/-- A joined source. -/
structure JoinClause where
  /-- The kind of the join. -/
  kind : JoinKind
  /-- The joined source. -/
  source : Source
  /-- The join condition. -/
  condition : Option Fragment

/-- A select statement. -/
structure Statement where
  /-- Whether equal rows are reported once. -/
  distinct : Bool := false
  /-- The name of the statement where it is a source. -/
  label : Option String := none
  /-- The selected expressions. -/
  select : List SelectItem := []
  /-- The first source. -/
  source : Option Source := none
  /-- The joined sources. -/
  joins : List JoinClause := []
  /-- Conditions on rows, all of which hold. -/
  filters : List Fragment := []
  /-- Grouping expressions. -/
  groupBy : List Fragment := []
  /-- Ordering expressions. -/
  orderBy : List OrderItem := []
  /-- The greatest number of rows. -/
  limit : Option Nat := none
  /-- The number of rows that are skipped. -/
  offset : Option Nat := none

end

/-- Whether a statement is laid out over lines, and how deeply it is nested. -/
structure Layout where
  /-- Each clause stands on a line of its own. -/
  pretty : Bool
  /-- The depth of nesting. -/
  depth : Nat := 0
deriving DecidableEq, Repr

namespace Layout

/-- Everything on one line. -/
def compact : Layout := ⟨false, 0⟩

/-- One level deeper. -/
def nested (l : Layout) : Layout := { l with depth := l.depth + 1 }

/-- A line break with its indentation. -/
def lineBreak (l : Layout) : List Token :=
  if l.depth = 0 then [.newline] else [.newline, .indent l.depth]

/-- What stands before a clause: a line break, or a space. -/
def clauseBreak (l : Layout) : List Token :=
  if l.pretty then l.lineBreak else [.space]

/-- What stands inside the parentheses around a statement: a line break, or nothing. -/
def innerBreak (l : Layout) : List Token :=
  if l.pretty then l.lineBreak else []

end Layout

/-- A clause of a statement on its place in the layout, left out where it is empty. -/
def clause (l : Layout) (tokens : List Token) : List Token :=
  if tokens.isEmpty then [] else l.clauseBreak ++ tokens

/-- A keyword followed by entries with tokens between them, or nothing without entries. -/
def listClause (word : Keyword) (separator : List Token) (entries : List (List Token)) :
    List Token :=
  if entries.isEmpty then [] else .keyword word :: .space :: Token.interleave separator entries

/-- The keyword of a join kind. -/
def JoinKind.keyword : JoinKind → Keyword
  | .inner => .inner
  | .left => .left
  | .full => .full
  | .cross => .cross

/-- The keyword of a sort direction. -/
def SortDirection.keyword : SortDirection → Keyword
  | .asc => .asc
  | .desc => .desc

/-- The tokens of a selected expression. -/
def SelectItem.tokens (item : SelectItem) : List Token :=
  .fragment item.expr :: Token.labelTokens item.label

/-- The select list: each item on its place in the layout, with commas between them. -/
def selectTokens (l : Layout) (items : List SelectItem) : List Token :=
  Token.interleave [.comma] (items.map fun item => l.nested.clauseBreak ++ item.tokens)

/-- The tokens of a join condition. -/
def conditionTokens : Option Fragment → List Token
  | none => []
  | some f => [.space, .keyword .on, .space, .fragment f]

mutual

/-- The tokens of a source. -/
def Source.tokens (l : Layout) : Source → List Token
  | .table name label => .qualified (Text.split '.' name) :: Token.labelTokens label
  | .raw sql label => [.leftParen, .fragment sql, .rightParen] ++ Token.labelTokens label
  | .statement inner =>
    .leftParen :: (l.nested.innerBreak ++ inner.tokens l.nested ++ l.innerBreak ++
      .rightParen :: Token.labelTokens inner.label)
termination_by structural s => s

/-- The tokens of the first source. -/
def sourceTokens (l : Layout) : Option Source → List Token
  | none => []
  | some source => l.clauseBreak ++ .keyword .source :: .space :: source.tokens l
termination_by structural s => s

/-- The tokens of one join. -/
def JoinClause.tokens (l : Layout) : JoinClause → List Token
  | ⟨kind, source, condition⟩ =>
    .keyword kind.keyword :: .space :: .keyword .join :: .space ::
      (source.tokens l ++ conditionTokens condition)
termination_by structural j => j

/-- The tokens of all joins. -/
def joinTokens (l : Layout) : List JoinClause → List Token
  | [] => []
  | join :: rest => l.clauseBreak ++ join.tokens l ++ joinTokens l rest
termination_by structural js => js

/-- The tokens of a statement, clause by clause. -/
def Statement.tokens (l : Layout) : Statement → List Token
  | ⟨distinct, _, select, source, joins, filters, groupBy, orderBy, limit, offset⟩ =>
    .keyword .select :: ((if distinct then [.space, .keyword .distinct] else []) ++
      selectTokens l select ++ sourceTokens l source ++ joinTokens l joins ++
      clause l (listClause .filter [.space, .keyword .both, .space]
        (filters.map fun f => [.fragment f])) ++
      clause l (listClause .groupBy [.comma, .space] (groupBy.map fun f => [.fragment f])) ++
      clause l (listClause .orderBy [.comma, .space] (orderBy.map fun o =>
        [.fragment o.expr, .space, .keyword o.direction.keyword])) ++
      clause l (Token.pagination limit offset))
termination_by structural s => s

end

/-- Name a source. -/
def Source.withLabel (label : String) : Source → Source
  | .table name _ => .table name (some label)
  | .raw sql _ => .raw sql (some label)
  | .statement inner => .statement { inner with label := some label }

namespace Statement

/-- The statement as SQL with neutral marks, and its bindings. -/
def render (s : Statement) (d : Dialect) (l : Layout) : Fragment :=
  Token.renderAll d (s.tokens l)

/-- The statement as SQL text on one line, with the placeholders of the dialect. -/
def toSql (s : Statement) (d : Dialect) : String :=
  d.placeholders (s.render d .compact).sql

/-- The statement as SQL text of the standard dialect. -/
def text (s : Statement) : String :=
  s.toSql .ansi

end Statement

end MetricLayer.Sql
