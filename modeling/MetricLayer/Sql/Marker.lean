import MetricLayer.Sql.Fragment

/-!
# Binding marks in SQL text

A question mark is a binding mark unless it stands inside quotes or after a backslash. Quotes are
`'`, `"` and the backtick; inside quotes only the same character closes them, so a doubled quote
closes and reopens. One scan divides the text into lexemes; counting the marks and numbering them
are both functions of its result.
-/

namespace MetricLayer.Sql

/-- A piece of SQL text as far as binding marks are concerned. -/
inductive Lexeme
  /-- A character that stands for itself. -/
  | plain (c : Char)
  /-- A question mark written after a backslash. -/
  | escapedMark
  /-- A binding mark. -/
  | mark
deriving DecidableEq, Repr

/-- Characters that open a string literal or a quoted identifier. -/
def isQuote (c : Char) : Bool :=
  c = '\'' || c = '"' || c.toNat = 0x60

/-- The lexemes of a text that starts inside the given quotes, or outside of any. -/
def lexemes : (quote : Option Char) → List Char → List Lexeme
  | _, [] => []
  | some q, c :: rest => .plain c :: lexemes (if c = q then none else some q) rest
  | none, '\\' :: '?' :: rest => .escapedMark :: lexemes none rest
  | none, c :: rest =>
    if c = '?' then .mark :: lexemes none rest
    else .plain c :: lexemes (if isQuote c then some c else none) rest

/-- The number of binding marks of a text. -/
def markCount (sql : String) : Nat :=
  (lexemes none sql.toList).count .mark

/-- The characters of lexemes whose marks are numbered from `next` on; an escaped mark loses its
backslash. -/
def numbered (next : Nat) : List Lexeme → List Char
  | [] => []
  | .plain c :: rest => c :: numbered next rest
  | .escapedMark :: rest => '?' :: numbered next rest
  | .mark :: rest => '$' :: (Nat.toDigits 10 next ++ numbered (next + 1) rest)

/-- How a database spells its parameters. -/
inductive PlaceholderStyle
  /-- The mark `?` itself. -/
  | positional
  /-- `$1`, `$2`, … in order. -/
  | numbered
deriving DecidableEq, Repr

/-- Spell the binding marks of a text in the given style. -/
def PlaceholderStyle.apply (style : PlaceholderStyle) (sql : String) : String :=
  match style with
  | .positional => sql
  | .numbered => String.ofList (Sql.numbered 1 (lexemes none sql.toList))

/-- The number of binding marks of a fragment. -/
def Fragment.markCount (f : Fragment) : Nat := Sql.markCount f.sql

end MetricLayer.Sql
