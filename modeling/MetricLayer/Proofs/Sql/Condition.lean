import MetricLayer.Proofs.Sql.Rows
import MetricLayer.Proofs.Sql.Symbol

/-!
# Conditions read from SQL

A reader of SQL conditions with the usual precedence, and what conditions mean in three-valued
logic. Comparisons, `in`, `between`, `ilike` and `is null` bind tighter than `and`, which binds
tighter than `or`; parentheses override. The `and` between the ends of a range belongs to the
range.

- `Condition` — what is read; `Condition.truth` says what it means in a row;
- `condition`, `conjunction`, `predicate` — the reader, one function for each level of precedence;
- `condition?` — the condition that a text is read as.
-/

namespace MetricLayer

/-! ## Three-valued logic -/

namespace Truth

/-- A condition holds or does not. -/
def ofBool (b : Bool) : Truth := if b then .yes else .no

/-- The condition does not hold. -/
def not : Truth → Truth
  | .yes => .no
  | .no => .yes
  | .unknown => .unknown

/-- The condition does or does not hold. -/
def negate (negated : Bool) (t : Truth) : Truth := if negated then t.not else t

/-- One of two conditions holds. -/
def or : Truth → Truth → Truth
  | .yes, _ | _, .yes => .yes
  | .no, .no => .no
  | _, _ => .unknown

/-- One of the conditions holds. -/
def any (ts : List Truth) : Truth := ts.foldr Truth.or .no

theorem and_yes (t : Truth) : t.and .yes = t := by cases t <;> rfl

theorem or_no (t : Truth) : t.or .no = t := by cases t <;> rfl

theorem and_assoc (s t u : Truth) : (s.and t).and u = s.and (t.and u) := by
  cases s <;> cases t <;> cases u <;> rfl

theorem or_assoc (s t u : Truth) : (s.or t).or u = s.or (t.or u) := by
  cases s <;> cases t <;> cases u <;> rfl

/-- All of two groups of conditions hold where both groups do. -/
theorem all_append (ss ts : List Truth) : all (ss ++ ts) = (all ss).and (all ts) := by
  induction ss with
  | nil => cases h : all ts <;> exact h
  | cons s rest ih =>
    change s.and (all (rest ++ ts)) = (s.and (all rest)).and (all ts)
    rw [ih, and_assoc]

theorem not_or (s t : Truth) : (s.or t).not = s.not.and t.not := by cases s <;> cases t <;> rfl

/-- None of the conditions holds where all of them fail. -/
theorem not_any (ts : List Truth) : (any ts).not = all (ts.map not) := by
  induction ts with
  | nil => rfl
  | cons t rest ih =>
    change (t.or (any rest)).not = t.not.and (all (rest.map not))
    rw [not_or, ih]

end Truth

namespace Sql

/-! ## Conditions and their meaning -/

/-- An expression without conditions. -/
inductive Operand
  | column (path : List String)
  | bound (value : Json)
  | literal (text : String)
  /-- Two texts, one after the other. -/
  | concat (left right : Operand)
deriving Repr

/-- How two values are compared. -/
inductive Comparison
  | equal
  | less
  | atMost
  | greater
  | atLeast
deriving DecidableEq, Repr

/-- A condition on rows. -/
inductive Condition
  | compare (comparison : Comparison) (left right : Operand)
  | isNull (operand : Operand)
  /-- One of several values. -/
  | oneOf (operand : Operand) (values : List Operand)
  /-- One of the rows of a statement, which is kept as it is written. -/
  | inRows (operand : Operand) (statement : List Symbol)
  | between (operand first last : Operand)
  /-- A match without regard to case. -/
  | like (operand pattern : Operand)
  | not (condition : Condition)
  | and (left right : Condition)
  | or (left right : Condition)
deriving Repr

/-- What a database knows: its values, how they are compared, and the rows of statements. -/
structure Semantics (V : Type) where
  /-- The value of a bound parameter. -/
  bound : Json → Option V
  /-- The value of a string literal. -/
  text : String → V
  compare : Comparison → V → V → Bool
  like : V → V → Bool
  concat : V → V → V
  /-- The single column of a statement with its bound values. -/
  rows : List Symbol → List (Option V)

namespace Semantics

variable {V : Type} (db : Semantics V)

/-- A test of two values, unknown where one of them is null. -/
def test (holds : V → V → Bool) : Option V → Option V → Truth
  | some a, some b => .ofBool (holds a b)
  | _, _ => .unknown

/-- Whether a value is among others. -/
def member (x : Option V) (values : List (Option V)) : Truth :=
  .any (values.map (test (db.compare .equal) x))

/-- Whether a value lies between two others. -/
def between (x first last : Option V) : Truth :=
  (test (db.compare .atLeast) x first).and (test (db.compare .atMost) x last)

/-- Two texts, one after the other; null where one of them is. -/
def append (x y : Option V) : Option V := do return db.concat (← x) (← y)

end Semantics

variable {V : Type} (db : Semantics V) (row : List String → Option V)

/-- The value of an operand in a row. -/
def Operand.value : Operand → Option V
  | .column path => row path
  | .bound value => db.bound value
  | .literal text => some (db.text text)
  | .concat left right => db.append (left.value) (right.value)

/-- The truth of a condition in a row. -/
def Condition.truth : Condition → Truth
  | .compare c x y => Semantics.test (db.compare c) (x.value db row) (y.value db row)
  | .isNull x => .ofBool (x.value db row).isNone
  | .oneOf x values => db.member (x.value db row) (values.map (·.value db row))
  | .inRows x statement => db.member (x.value db row) (db.rows statement)
  | .between x first last => db.between (x.value db row) (first.value db row) (last.value db row)
  | .like x pattern => Semantics.test db.like (x.value db row) (pattern.value db row)
  | .not c => (c.truth).not
  | .and c c' => (c.truth).and (c'.truth)
  | .or c c' => (c.truth).or (c'.truth)

/-- A condition or its negation. -/
def Condition.negate (negated : Bool) (c : Condition) : Condition := if negated then .not c else c

/-- Several conditions, all of which hold. -/
def Condition.all (first : Condition) : List Condition → Condition
  | [] => first
  | next :: rest => .and first (all next rest)

/-- Several conditions, one of which holds. -/
def Condition.any (first : Condition) : List Condition → Condition
  | [] => first
  | next :: rest => .or first (any next rest)

/-- A conjunction of conditions is as true as the conjunction of their truth values. -/
theorem Condition.truth_all (c : Condition) (cs : List Condition) :
    (c.all cs).truth db row = Truth.all ((c :: cs).map (·.truth db row)) := by
  induction cs generalizing c with
  | nil => exact (Truth.and_yes _).symm
  | cons next rest ih =>
    rw [Condition.all, Condition.truth, ih]
    rfl

/-- A disjunction of conditions is as true as the disjunction of their truth values. -/
theorem Condition.truth_any (c : Condition) (cs : List Condition) :
    (c.any cs).truth db row = Truth.any ((c :: cs).map (·.truth db row)) := by
  induction cs generalizing c with
  | nil => exact (Truth.or_no _).symm
  | cons next rest ih =>
    rw [Condition.any, Condition.truth, ih]
    rfl

theorem Condition.truth_negate (negated : Bool) (c : Condition) :
    (c.negate negated).truth db row = (c.truth db row).negate negated := by
  cases negated <;> rfl

/-! ## The reader -/

/-- The rest of a qualified name. -/
def readPath (path : List String) : List Symbol → List String × List Symbol
  | .operator "." :: .name part :: rest => readPath (path ++ [part]) rest
  | symbols => (path, symbols)

/-- The rest of a concatenation. -/
def readConcat (left : Operand) : List Symbol → Operand × List Symbol
  | .operator "||" :: .value v :: rest => readConcat (.concat left (.bound v)) rest
  | .operator "||" :: .literal text :: rest => readConcat (.concat left (.literal text)) rest
  | symbols => (left, symbols)

/-- An operand: a qualified name, a bound value or a string literal, with others appended. -/
def readOperand : List Symbol → Option (Operand × List Symbol)
  | .name part :: rest =>
    let (path, rest) := readPath [part] rest
    some (readConcat (.column path) rest)
  | .value v :: rest => some (readConcat (.bound v) rest)
  | .literal text :: rest => some (readConcat (.literal text) rest)
  | _ => none

/-- Values with commas between them, up to the closing parenthesis. -/
def readValues : List Symbol → Option (List Operand × List Symbol)
  | .value v :: .rightParen :: rest => some ([.bound v], rest)
  | .value v :: .comma :: rest => (readValues rest).map fun (vs, rest) => (.bound v :: vs, rest)
  | _ => none

/-- What stands before the closing parenthesis that belongs to none inside, given how many are
open inside. -/
def readEnclosed : (depth : Nat) → List Symbol → Option (List Symbol × List Symbol)
  | _, [] => none
  | 0, .rightParen :: rest => some ([], rest)
  | depth + 1, .rightParen :: rest =>
    (readEnclosed depth rest).map fun (inner, rest) => (.rightParen :: inner, rest)
  | depth, .leftParen :: rest =>
    (readEnclosed (depth + 1) rest).map fun (inner, rest) => (.leftParen :: inner, rest)
  | depth, symbol :: rest =>
    (readEnclosed depth rest).map fun (inner, rest) => (symbol :: inner, rest)

/-- The comparison that an operator stands for. -/
def Comparison.ofOperator? : String → Option Comparison
  | "=" => some .equal
  | "<" => some .less
  | "<=" => some .atMost
  | ">" => some .greater
  | ">=" => some .atLeast
  | _ => none

/-- A test that may be negated by `not`. -/
def readTest (x : Operand) : List Symbol → Option (Condition × List Symbol)
  | .word "in" :: .leftParen :: .word "select" :: rest => do
    let (inner, rest) ← readEnclosed 0 rest
    return (.inRows x (.word "select" :: inner), rest)
  | .word "in" :: .leftParen :: rest => do
    let (values, rest) ← readValues rest
    return (.oneOf x values, rest)
  | .word "between" :: rest => do
    match ← readOperand rest with
    | (first, .word "and" :: rest) =>
      let (last, rest) ← readOperand rest
      return (.between x first last, rest)
    | _ => none
  | .word "ilike" :: rest => do
    let (pattern, rest) ← readOperand rest
    return (.like x pattern, rest)
  | _ => none

/-- What is said of an operand. -/
def readPredicate (x : Operand) : List Symbol → Option (Condition × List Symbol)
  | .word "is" :: .word "null" :: rest => some (.isNull x, rest)
  | .word "is" :: .word "not" :: .word "null" :: rest => some (.not (.isNull x), rest)
  | .word "not" :: rest => (readTest x rest).map fun (c, rest) => (.not c, rest)
  | .operator "<>" :: rest => do
    let (y, rest) ← readOperand rest
    return (.not (.compare .equal x y), rest)
  | .operator symbol :: rest => do
    let comparison ← Comparison.ofOperator? symbol
    let (y, rest) ← readOperand rest
    return (.compare comparison x y, rest)
  | symbols => readTest x symbols

mutual

/-- Conjunctions with `or` between them. The first argument bounds the number of symbols. -/
def condition : Nat → List Symbol → Option (Condition × List Symbol)
  | 0, _ => none
  | bound + 1, symbols => do
    match ← conjunction bound symbols with
    | (c, .word "or" :: rest) =>
      let (c', rest) ← condition bound rest
      return (.or c c', rest)
    | result => return result

/-- Predicates with `and` between them. -/
def conjunction : Nat → List Symbol → Option (Condition × List Symbol)
  | 0, _ => none
  | bound + 1, symbols => do
    match ← predicate bound symbols with
    | (c, .word "and" :: rest) =>
      let (c', rest) ← conjunction bound rest
      return (.and c c', rest)
    | result => return result

/-- A condition in parentheses, or something said of an operand. -/
def predicate : Nat → List Symbol → Option (Condition × List Symbol)
  | 0, _ => none
  | bound + 1, .leftParen :: symbols => do
    match ← condition bound symbols with
    | (c, .rightParen :: rest) => return (c, rest)
    | _ => none
  | _ + 1, symbols => do
    let (x, rest) ← readOperand symbols
    readPredicate x rest

end

/-- The condition that all symbols together are read as. -/
def condition? (symbols : List Symbol) : Option Condition := do
  match ← condition (3 * symbols.length + 3) symbols with
  | (c, []) => return c
  | _ => none

-- `and` binds tighter than `or`, and the `and` of a range belongs to the range.
example (u v w : Json) :
    condition? [.name "a", .operator "=", .value u, .word "or", .name "b", .word "between",
      .value v, .word "and", .value w, .word "and", .name "c", .word "is", .word "null"] =
    some (.or (.compare .equal (.column ["a"]) (.bound u))
      (.and (.between (.column ["b"]) (.bound v) (.bound w)) (.isNull (.column ["c"])))) := rfl

end Sql

end MetricLayer
