import MetricLayer.Schema.Granularity
import MetricLayer.Sql.Marker
import MetricLayer.Text.Split

/-!
# SQL dialects

The four dialects and all that differs between them: identifier quotes, parameter spelling and
the expressions of temporal granularities.
-/

namespace MetricLayer.Sql

/-- A supported SQL dialect. -/
inductive Dialect
  | ansi
  | postgres
  | duckdb
  | databricks
deriving DecidableEq, Repr, Inhabited

/-- Wildcards and negation of a pattern match. -/
structure PatternMatch where
  /-- Any text may stand before the value. -/
  leadingWildcard : Bool
  /-- Any text may stand after the value. -/
  trailingWildcard : Bool
  /-- The match is negated. -/
  negated : Bool
deriving DecidableEq, Repr

namespace PatternMatch

/-- The value is matched exactly. -/
def plain : PatternMatch := ⟨false, false, false⟩

/-- The value occurs anywhere. -/
def contains : PatternMatch := ⟨true, true, false⟩

/-- The value stands at the start. -/
def startsWith : PatternMatch := ⟨false, true, false⟩

/-- The value stands at the end. -/
def endsWith : PatternMatch := ⟨true, false, false⟩

/-- The opposite match. -/
def negate (p : PatternMatch) : PatternMatch := { p with negated := !p.negated }

end PatternMatch

/-- A name that no dialect has. -/
structure UnknownDialect where
  /-- The name. -/
  name : String
deriving DecidableEq, Repr

/-- The words for an unknown dialect. -/
def UnknownDialect.message (e : UnknownDialect) : String :=
  "Unknown dialect '" ++ e.name ++ "' (expected one of: ansi, postgres, duckdb, databricks)"

namespace Dialect

/-- Every dialect, in declaration order. -/
def all : List Dialect := [.ansi, .postgres, .duckdb, .databricks]

/-- The name of a dialect. -/
def name : Dialect → String
  | .ansi => "ansi"
  | .postgres => "postgres"
  | .duckdb => "duckdb"
  | .databricks => "databricks"

/-- The dialect with exactly the given name. -/
def ofName? (name : String) : Option Dialect :=
  all.find? (·.name = name)

/-- The dialect with the given name, whatever the case of its ASCII letters. -/
def parse (text : String) : Except UnknownDialect Dialect :=
  match all.find? fun d => d.name.toList = text.toList.map Char.toLower with
  | some d => .ok d
  | none => .error ⟨text⟩

/-- The character around a quoted identifier. -/
def quoteChar : Dialect → Char
  | .ansi | .postgres | .duckdb => '"'
  | .databricks => '\x60'

/-- An identifier in quotes, its own quote characters doubled. The wildcard `*` is not quoted. -/
def quote (d : Dialect) (identifier : String) : String :=
  if identifier = "*" then identifier
  else
    let q := d.quoteChar
    q.toString ++ Text.replaceChar q (String.ofList [q, q]) identifier ++ q.toString

/-- Identifiers in quotes with points between them. -/
def quotePath (d : Dialect) (identifiers : List String) : String :=
  String.intercalate "." (identifiers.map d.quote)

/-- How the dialect spells its parameters. -/
def placeholderStyle : Dialect → PlaceholderStyle
  | .ansi | .databricks => .positional
  | .postgres | .duckdb => .numbered

/-- Spell the binding marks of a text as the dialect does. -/
def placeholders (d : Dialect) (sql : String) : String :=
  d.placeholderStyle.apply sql

/-- The operator that concatenates texts. -/
def concatOperator (_ : Dialect) : String := "||"

/-- The operator that matches a pattern without regard to case. -/
def patternOperator (_ : Dialect) : String := "ilike"

/-- A function call. -/
def call (name : String) (f : Fragment) : Fragment := f.wrap (name ++ "(") ")"

/-- Truncation to a unit. -/
def dateTrunc (unit : String) (f : Fragment) : Fragment :=
  f.wrap ("date_trunc('" ++ unit ++ "', ") ")"

/-- Conversion to a type. -/
def cast (type : String) (f : Fragment) : Fragment := f.wrap "cast(" (" as " ++ type ++ ")")

/-- A numeric part of a temporal value. -/
def datePart (d : Dialect) (part : String) (f : Fragment) : Fragment :=
  match d with
  | .ansi | .postgres => f.wrap ("extract(" ++ part ++ " from ") ")"
  | .duckdb => f.wrap ("date_part('" ++ part ++ "', ") ")"
  | .databricks => call part f

/-- The expression that derives a granularity from a temporal expression. -/
def granularity (d : Dialect) (g : Granularity) (f : Fragment) : Fragment :=
  match d with
  | .ansi | .postgres | .duckdb =>
    match g with
    | .time => cast "time" f
    | .date => cast "date" f
    | .year => dateTrunc "year" f
    | .quarter => dateTrunc "quarter" f
    | .quarterOfYear => d.datePart "quarter" f
    | .month => dateTrunc "month" f
    | .monthNumber => d.datePart "month" f
    | .week => dateTrunc "week" f
    | .weekNumber => d.datePart "week" f
    | .dayOfMonth => d.datePart "day" f
    | .hour => dateTrunc "hour" f
    | .hourOfDay => d.datePart "hour" f
    | .minute => dateTrunc "minute" f
  | .databricks =>
    match g with
    | .time => f.wrap "date_format(" ", 'HH:mm:ss')"
    | .date => call "to_date" f
    | .year => dateTrunc "YEAR" f
    | .quarter => dateTrunc "QUARTER" f
    | .quarterOfYear => d.datePart "quarter" f
    | .month => dateTrunc "MONTH" f
    | .monthNumber => d.datePart "month" f
    | .week => dateTrunc "WEEK" f
    | .weekNumber => d.datePart "weekofyear" f
    | .dayOfMonth => d.datePart "dayofmonth" f
    | .hour => dateTrunc "HOUR" f
    | .hourOfDay => d.datePart "hour" f
    | .minute => dateTrunc "MINUTE" f

/-- Match an expression against a bound value with wildcards around it. -/
def patternMatch (d : Dialect) (f : Fragment) (p : PatternMatch) (value : Json) : Fragment :=
  let negation := if p.negated then "not " else ""
  let before := if p.leadingWildcard then "'%' " ++ d.concatOperator ++ " " else ""
  let after := if p.trailingWildcard then " " ++ d.concatOperator ++ " '%'" else ""
  f ++ (Fragment.ofValue value).wrap (" " ++ negation ++ d.patternOperator ++ " " ++ before) after

end Dialect

end MetricLayer.Sql
