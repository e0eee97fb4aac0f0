import MetricLayer.Sql.Dialect

/-!
# SQL tokens

The atomic units of a statement, independent of the dialect. Bound values travel with the tokens,
so that rendering yields a fragment whose bindings line up with its marks.
-/

namespace MetricLayer.Sql

/-- A word of SQL. -/
inductive Keyword
  | select
  | distinct
  /-- Introduces the source. -/
  | source
  /-- Introduces the conditions on rows. -/
  | filter
  /-- Stands between two conditions. -/
  | both
  /-- Introduces a label. -/
  | named
  /-- Introduces a join condition. -/
  | on
  | join
  | inner
  | left
  | full
  | cross
  | groupBy
  | orderBy
  | asc
  | desc
  | limit
  | offset
  /-- The constant truth value. -/
  | truth
deriving DecidableEq, Repr

/-- The spelling of a keyword. -/
def Keyword.text : Keyword → String
  | .select => "select"
  | .distinct => "distinct"
  | .source => "from"
  | .filter => "where"
  | .both => "and"
  | .named => "as"
  | .on => "on"
  | .join => "join"
  | .inner => "inner"
  | .left => "left"
  | .full => "full"
  | .cross => "cross"
  | .groupBy => "group by"
  | .orderBy => "order by"
  | .asc => "asc"
  | .desc => "desc"
  | .limit => "limit"
  | .offset => "offset"
  | .truth => "true"

/-- An atomic unit of SQL output. -/
inductive Token
  | keyword (word : Keyword)
  | comma
  | dot
  | leftParen
  | rightParen
  | space
  | newline
  /-- Two spaces for each level. -/
  | indent (level : Nat)
  /-- An identifier, quoted. -/
  | identifier (name : String)
  /-- Identifiers, each quoted, with points between them. -/
  | qualified (names : List String)
  /-- A bound value. -/
  | binding (value : Json)
  /-- Finished SQL with its own bindings. -/
  | fragment (sql : Fragment)
  /-- Text that is emitted as it is. -/
  | raw (text : String)
deriving DecidableEq, Repr

namespace Token

/-- The SQL of one token. -/
def render (d : Dialect) : Token → Fragment
  | .keyword word => .ofText word.text
  | .comma => .ofText ","
  | .dot => .ofText "."
  | .leftParen => .ofText "("
  | .rightParen => .ofText ")"
  | .space => .ofText " "
  | .newline => .ofText "\n"
  | .indent level => .ofText (String.ofList (List.replicate (2 * level) ' '))
  | .identifier name => .ofText (d.quote name)
  | .qualified names => .ofText (d.quotePath names)
  | .binding value => .ofValue value
  | .fragment sql => sql
  | .raw text => .ofText text

/-- The SQL of tokens one after the other. -/
def renderAll (d : Dialect) (tokens : List Token) : Fragment :=
  Fragment.concat (tokens.map (render d))

/-- Whether a token is only white space. -/
def isSpacing : Token → Bool
  | .space | .newline | .indent _ => true
  | _ => false

/-- A label after an expression or a source. -/
def labelTokens : Option String → List Token
  | none => []
  | some name => [.space, .keyword .named, .space, .identifier name]

/-- Lists of tokens with other tokens between any two. -/
def interleave (separator : List Token) : List (List Token) → List Token
  | [] => []
  | [tokens] => tokens
  | tokens :: rest => tokens ++ separator ++ interleave separator rest

/-- The limit and the offset of a page, each bound and each only where it is given. -/
def pagination (limit offset : Option Nat) : List Token :=
  let part (word : Keyword) (n : Option Nat) : List (List Token) :=
    (n.map fun n => [.keyword word, .space, .binding (Json.ofNat n)]).toList
  interleave [.space] (part .limit limit ++ part .offset offset)

end Token

end MetricLayer.Sql
