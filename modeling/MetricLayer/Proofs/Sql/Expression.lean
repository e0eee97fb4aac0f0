import MetricLayer.Proofs.Sql.Phrase

/-!
# SQL expressions

Scalar and boolean expressions with the parentheses that are written, their ranks, their symbols and
their values. From loose to tight: `or`, `and`, `not`, comparisons and other tests, `||`, sums,
products. Operators of one rank group to the left, except that comparisons do not group at all.

- `Expression`, `Expression.symbols` — expressions and how they are written;
- `Expression.Tight` — every operand binds as tightly as its place asks for;
- `Expression.WellFormed` — the expressions that SQL text can be read as;
- `Expression.splice`, `Expression.wellFormed_splice_iff` — expressions in place of references are
  whole operands exactly where they bind as tightly as their places ask for;
- `ScalarSemantics`, `Expression.value` — the value of an expression in a row.
-/

namespace MetricLayer.Sql

/-! ## Expressions -/

/-- An operand without operators. -/
inductive Atom
  /-- A qualified name in quotes. -/
  | column (path : List String)
  | literal (text : String)
  | bound (value : Json)
  /-- A number, a truth value or a name without quotes. -/
  | constant (word : String)
  /-- Two words with a point between them, such as a number with a fraction. -/
  | dotted (first second : String)
  /-- A function call. What stands in its parentheses is kept as it is written. -/
  | call (function : String) (arguments : List Symbol)
deriving DecidableEq, Repr

/-- An operation on numbers. -/
inductive Arithmetic
  | add
  | subtract
  | multiply
  | divide
deriving DecidableEq, Repr

/-- An operator between two expressions. -/
inductive BinaryOperator
  | or
  | and
  | compare (comparison : Comparison)
  | differs
  /-- A match without regard to case. -/
  | like (negated : Bool)
  | concat
  | calculate (operation : Arithmetic)
deriving DecidableEq, Repr

/-- A test that is written after an expression. -/
inductive Test
  | isNull (negated : Bool)
  /-- One of several values. -/
  | oneOf (negated : Bool) (values : List Json)
  /-- One of the rows of a statement, of which everything after the first word is kept. -/
  | inRows (negated : Bool) (statement : List Symbol)
  | between (negated : Bool) (first last : Json)
deriving DecidableEq, Repr

/-- A scalar or boolean expression. -/
inductive Expression
  | atom (atom : Atom)
  /-- An expression that is given elsewhere. -/
  | reference (path : String)
  | paren (inner : Expression)
  | not (inner : Expression)
  | binary (operator : BinaryOperator) (left right : Expression)
  | test (test : Test) (operand : Expression)
deriving DecidableEq, Repr

/-! ### Precedence -/

/-- The rank of comparisons and tests. -/
abbrev comparisonRank : Nat := 4

/-- The rank of what stands alone, the tightest one. -/
abbrev atomRank : Nat := 8

/-- The rank of `not`. -/
abbrev notRank : Nat := 3

/-- The rank of an operator: the higher, the tighter it binds. -/
def BinaryOperator.rank : BinaryOperator → Nat
  | .or => 1
  | .and => 2
  | .compare _ | .differs | .like _ => comparisonRank
  | .concat => 5
  | .calculate .add | .calculate .subtract => 6
  | .calculate .multiply | .calculate .divide => 7

/-- The least rank of an operand on the left. Comparisons do not group. -/
def BinaryOperator.leftRank (op : BinaryOperator) : Nat :=
  if op.rank = comparisonRank then comparisonRank + 1 else op.rank

/-- The rank of an expression. -/
def Expression.rank : Expression → Nat
  | .atom _ | .reference _ | .paren _ => atomRank
  | .not _ => notRank
  | .binary op _ _ => op.rank
  | .test _ _ => comparisonRank

/-- Every operand binds as tightly as its place asks for. -/
def Expression.Tight : Expression → Prop
  | .atom _ | .reference _ => True
  | .paren inner => inner.Tight
  | .not inner => notRank ≤ inner.rank ∧ inner.Tight
  | .binary op left right =>
    (op.leftRank ≤ left.rank ∧ left.Tight) ∧ op.rank + 1 ≤ right.rank ∧ right.Tight
  | .test _ operand => comparisonRank + 1 ≤ operand.rank ∧ operand.Tight

instance : (e : Expression) → Decidable e.Tight
  | .atom _ | .reference _ => isTrue trivial
  | .paren inner => instDecidableTight inner
  | .not inner =>
    have := instDecidableTight inner
    inferInstanceAs (Decidable (_ ∧ _))
  | .binary _ left right =>
    have := instDecidableTight left
    have := instDecidableTight right
    inferInstanceAs (Decidable ((_ ∧ _) ∧ _ ∧ _))
  | .test _ operand =>
    have := instDecidableTight operand
    inferInstanceAs (Decidable (_ ∧ _))

theorem BinaryOperator.rank_le_leftRank (op : BinaryOperator) : op.rank ≤ op.leftRank := by
  rw [leftRank]
  split_ifs with h
  · rw [h]
    exact Nat.le_succ _
  · exact le_rfl

theorem BinaryOperator.rank_pos (op : BinaryOperator) : 0 < op.rank := by
  unfold rank
  split <;> decide

/-- Every operator binds more loosely than an atom. -/
theorem BinaryOperator.rank_lt_atomRank (op : BinaryOperator) : op.rank < atomRank := by
  unfold rank
  split <;> decide

theorem BinaryOperator.rank_ne_notRank (op : BinaryOperator) : op.rank ≠ notRank := by
  unfold rank
  split <;> decide

/-! ### Symbols -/

/-- The symbol in lower case: the case of words without quotes means nothing. -/
def Symbol.fold : Symbol → Symbol
  | .word text => .word (String.ofList (text.toList.map Char.toLower))
  | symbol => symbol

/-- Words with a meaning of their own. -/
def reserved : List String := ["or", "and", "not", "is", "in", "between", "ilike"]

/-- The symbols of an operand. -/
def Atom.symbols : Atom → List Symbol
  | .column path => pathSymbols path
  | .literal text => [.literal text]
  | .bound value => [.value value]
  | .constant word => [.word word]
  | .dotted first second => [.word first, .operator ".", .word second]
  | .call function arguments => .word function :: .leftParen :: (arguments ++ [.rightParen])

/-- The symbol of a comparison. -/
def Comparison.operator : Comparison → String
  | .equal => "="
  | .less => "<"
  | .atMost => "<="
  | .greater => ">"
  | .atLeast => ">="

theorem Comparison.ofOperator?_operator (c : Comparison) : ofOperator? c.operator = some c := by
  cases c <;> rfl

/-- The symbol of an operation on numbers. -/
def Arithmetic.operator : Arithmetic → String
  | .add => "+"
  | .subtract => "-"
  | .multiply => "*"
  | .divide => "/"

/-- The word in front of a negated test. -/
def negation (negated : Bool) : List Symbol := if negated then [.word "not"] else []

/-- The symbols of an operator. -/
def BinaryOperator.symbols : BinaryOperator → List Symbol
  | .or => [.word "or"]
  | .and => [.word "and"]
  | .compare comparison => [.operator comparison.operator]
  | .differs => [.operator "<>"]
  | .like negated => negation negated ++ [.word "ilike"]
  | .concat => [.operator "||"]
  | .calculate operation => [.operator operation.operator]

/-- Values with commas between them. -/
def valueSymbols (values : List Json) : List Symbol :=
  [.comma].intercalate (values.map ([.value ·]))

/-- Symbols with others between them are put in lower case one by one. -/
theorem map_fold_intercalate (separator : List Symbol) (tss : List (List Symbol)) :
    (separator.intercalate tss).map Symbol.fold =
      (separator.map Symbol.fold).intercalate (tss.map (·.map Symbol.fold)) := by
  induction tss with
  | nil => rfl
  | cons ts rest ih =>
    cases rest with
    | nil => simp
    | cons us rest =>
      rw [List.intercalate_cons_cons, List.map_append, List.map_append, ih]
      simp [List.intercalate_cons_cons]

/-- Values are in lower case as they are. -/
theorem map_fold_valueSymbols (values : List Json) :
    (valueSymbols values).map Symbol.fold = valueSymbols values := by
  rw [valueSymbols, map_fold_intercalate, List.map_map]
  rfl

/-- Lower case opens and closes no parentheses. -/
private theorem openParens?_map_fold (depth : Nat) (ts : List Symbol) :
    openParens? depth (ts.map Symbol.fold) = openParens? depth ts := by
  fun_induction openParens? depth ts with
  | case1 => rfl
  | case2 => rfl
  | case3 depth rest ih => exact ih
  | case4 depth rest ih =>
    change openParens? depth (.leftParen :: rest.map Symbol.fold) = _
    rw [openParens?, ih]
  | case5 depth symbol rest hzero hright hleft ih =>
    rw [List.map_cons, openParens?, ih]
    all_goals cases symbol <;> simp_all [Symbol.fold]

theorem balanced_map_fold {ts : List Symbol} (h : Balanced ts) :
    Balanced (ts.map Symbol.fold) :=
  (openParens?_map_fold 0 ts).trans h

/-- The symbols of a test. -/
def Test.symbols : Test → List Symbol
  | .isNull negated => .word "is" :: (negation negated ++ [.word "null"])
  | .oneOf negated values =>
    negation negated ++ .word "in" :: .leftParen :: (valueSymbols values ++ [.rightParen])
  | .inRows negated statement =>
    negation negated ++ .word "in" :: .leftParen :: .word "select" :: (statement ++ [.rightParen])
  | .between negated first last =>
    negation negated ++ [.word "between", .value first, .word "and", .value last]

/-- The symbols of an expression, given those that stand for each reference. -/
def Expression.symbols (fill : String → List Symbol) : Expression → List Symbol
  | .atom a => a.symbols
  | .reference path => fill path
  | .paren inner => .leftParen :: (inner.symbols fill ++ [.rightParen])
  | .not inner => .word "not" :: inner.symbols fill
  | .binary op left right => left.symbols fill ++ (op.symbols ++ right.symbols fill)
  | .test t operand => operand.symbols fill ++ t.symbols

/-- The operand is no other symbols than it seems. -/
def Atom.Readable : Atom → Prop
  | .column path => path ≠ []
  | .literal _ | .bound _ => True
  | .constant word | .dotted word _ => word ∉ reserved
  | .call function arguments => function ∉ reserved ∧ Balanced arguments

instance : (a : Atom) → Decidable a.Readable
  | .column _ => inferInstanceAs (Decidable (_ ≠ _))
  | .literal _ | .bound _ => isTrue trivial
  | .constant _ | .dotted _ _ => inferInstanceAs (Decidable (_ ∉ _))
  | .call _ _ => inferInstanceAs (Decidable (_ ∉ _ ∧ _))

/-- A list is not empty, and a statement closes the parentheses that it opens. -/
def Test.Readable : Test → Prop
  | .isNull _ | .between _ _ _ => True
  | .oneOf _ values => values ≠ []
  | .inRows _ statement => Balanced statement

instance : (t : Test) → Decidable t.Readable
  | .isNull _ | .between _ _ _ => isTrue trivial
  | .oneOf _ _ => inferInstanceAs (Decidable (_ ≠ _))
  | .inRows _ _ => inferInstanceAs (Decidable (Balanced _))

/-- All operands and tests of an expression are readable, references aside. -/
def Expression.Readable : Expression → Prop
  | .atom a => a.Readable
  | .reference _ => True
  | .paren inner | .not inner => inner.Readable
  | .binary _ left right => left.Readable ∧ right.Readable
  | .test t operand => t.Readable ∧ operand.Readable

/-- An expression without references. -/
def Expression.Closed : Expression → Prop
  | .atom _ => True
  | .reference _ => False
  | .paren inner | .not inner | .test _ inner => inner.Closed
  | .binary _ left right => left.Closed ∧ right.Closed

/-- The expression is in the grammar: every operand is readable and binds tightly enough, and there
are no references. -/
structure Expression.WellFormed (e : Expression) : Prop where
  readable : e.Readable
  closed : e.Closed
  tight : e.Tight

namespace Expression

variable {x y : Expression}

theorem wellFormed_atom {a : Atom} (h : a.Readable) : (atom a).WellFormed := ⟨h, trivial, trivial⟩

theorem comparisonRank_lt_atom (a : Atom) : comparisonRank < (atom a).rank := by
  rw [rank]
  decide

theorem wellFormed_paren_iff : (paren x).WellFormed ↔ x.WellFormed :=
  ⟨fun h => ⟨h.readable, h.closed, h.tight⟩, fun h => ⟨h.readable, h.closed, h.tight⟩⟩

/-- An operator stands over its operands without a parenthesis exactly when the left one binds at
least as tightly as it asks and the right one more tightly than it does. -/
theorem wellFormed_binary_iff {op : BinaryOperator} : (binary op x y).WellFormed ↔
    (op.leftRank ≤ x.rank ∧ x.WellFormed) ∧ op.rank < y.rank ∧ y.WellFormed := by
  constructor
  · rintro ⟨hreadable, hclosed, hleft, hright⟩
    exact ⟨⟨hleft.1, hreadable.1, hclosed.1, hleft.2⟩, hright.1, hreadable.2, hclosed.2, hright.2⟩
  · rintro ⟨⟨hleft, hx⟩, hright, hy⟩
    exact ⟨⟨hx.readable, hy.readable⟩, ⟨hx.closed, hy.closed⟩, ⟨hleft, hx.tight⟩, hright, hy.tight⟩

theorem wellFormed_test_iff {t : Test} :
    (test t x).WellFormed ↔ t.Readable ∧ comparisonRank < x.rank ∧ x.WellFormed := by
  constructor
  · rintro ⟨⟨ht, hreadable⟩, hclosed, hrank, htight⟩
    exact ⟨ht, hrank, hreadable, hclosed, htight⟩
  · rintro ⟨ht, hrank, hx⟩
    exact ⟨⟨ht, hx.readable⟩, hx.closed, hrank, hx.tight⟩

end Expression

/-! ## References -/

namespace Expression

/-- The given expressions in place of the references. -/
def splice (whole : String → Expression) : Expression → Expression
  | .atom a => .atom a
  | .reference path => whole path
  | .paren inner => .paren (inner.splice whole)
  | .not inner => .not (inner.splice whole)
  | .binary op left right => .binary op (left.splice whole) (right.splice whole)
  | .test t operand => .test t (operand.splice whole)

/-- The references of an expression, each with the rank that its place asks for. The first argument
is the rank that is asked for of the expression itself. -/
def places : (least : Nat) → Expression → List (String × Nat)
  | _, .atom _ => []
  | least, .reference path => [(path, least)]
  | _, .paren inner => inner.places 0
  | _, .not inner => inner.places notRank
  | _, .binary op left right => left.places op.leftRank ++ right.places (op.rank + 1)
  | _, .test _ operand => operand.places (comparisonRank + 1)

/-- What stands for a reference are the symbols of the expression in its place. -/
theorem symbols_splice (whole : String → Expression) (fill : String → List Symbol) (e : Expression) :
    (e.splice whole).symbols fill = e.symbols fun path => (whole path).symbols fill := by
  induction e with
  | atom a => rfl
  | reference path => rfl
  | paren inner ih | not inner ih => simp only [splice, symbols, ih]
  | binary op left right ihl ihr => simp only [splice, symbols, ihl, ihr]
  | test t operand ih => simp only [splice, symbols, ih]

section Splice

variable {whole : String → Expression} {least : Nat} {e : Expression}

/-- An expression stays readable when every place takes an expression that is readable whole. -/
private theorem readable_splice (he : e.Readable)
    (hwhole : ∀ p ∈ e.places least, (whole p.1).Readable) : (e.splice whole).Readable := by
  induction e generalizing least with
  | atom a => exact he
  | reference path => exact hwhole _ List.mem_cons_self
  | paren inner ih | not inner ih => exact ih he hwhole
  | binary op left right ihl ihr =>
    rw [places, List.forall_mem_append] at hwhole
    exact ⟨ihl he.1 hwhole.1, ihr he.2 hwhole.2⟩
  | test t operand ih => exact ⟨he.1, ih he.2 hwhole⟩

private theorem closed_splice (hwhole : ∀ p ∈ e.places least, (whole p.1).Closed) :
    (e.splice whole).Closed := by
  induction e generalizing least with
  | atom a => trivial
  | reference path => exact hwhole _ List.mem_cons_self
  | paren inner ih | not inner ih | test t inner ih => exact ih hwhole
  | binary op left right ihl ihr =>
    rw [places, List.forall_mem_append] at hwhole
    exact ⟨ihl hwhole.1, ihr hwhole.2⟩

/-- An expression with others in place of its references has the rank that is asked for and is
tight exactly where each of them has the rank that its place asks for. -/
private theorem tight_splice_iff (hrank : least ≤ e.rank) (htight : e.Tight)
    (hwhole : ∀ p ∈ e.places least, (whole p.1).Tight) :
    (least ≤ (e.splice whole).rank ∧ (e.splice whole).Tight) ↔
      ∀ p ∈ e.places least, p.2 ≤ (whole p.1).rank := by
  induction e generalizing least with
  | atom a => simpa [splice, places, Tight] using hrank
  | reference path =>
    have hpath : (whole path).Tight := hwhole _ List.mem_cons_self
    simp [splice, places, hpath]
  | paren inner ih =>
    have hinner := ih (Nat.zero_le _) htight hwhole
    rw [places, ← hinner]
    simpa [splice, Tight, rank] using fun _ => hrank
  | not inner ih =>
    have hinner := ih htight.1 htight.2 hwhole
    rw [places, ← hinner]
    simpa [splice, Tight, rank] using fun _ _ => hrank
  | binary op left right ihl ihr =>
    rw [places, List.forall_mem_append] at hwhole
    have hleft := ihl htight.1.1 htight.1.2 hwhole.1
    have hright := ihr htight.2.1 htight.2.2 hwhole.2
    rw [places, List.forall_mem_append, ← hleft, ← hright]
    exact and_iff_right hrank
  | test t operand ih =>
    have hoperand := ih htight.1 htight.2 hwhole
    rw [places, ← hoperand]
    exact and_iff_right hrank

/-- Expressions in place of the references of a tight expression make a well-formed one exactly where
each of them has the rank that its place asks for. -/
theorem wellFormed_splice_iff (hreadable : e.Readable) (htight : e.Tight)
    (hwhole : ∀ p ∈ e.places 0, (whole p.1).WellFormed) :
    (e.splice whole).WellFormed ↔ ∀ p ∈ e.places 0, p.2 ≤ (whole p.1).rank := by
  have hiff := tight_splice_iff (Nat.zero_le _) htight fun p hp => (hwhole p hp).tight
  rw [← hiff]
  refine ⟨fun h => ⟨Nat.zero_le _, h.tight⟩, fun h => ⟨?_, ?_, h.2⟩⟩
  · exact readable_splice hreadable fun p hp => (hwhole p hp).readable
  · exact closed_splice fun p hp => (hwhole p hp).closed

end Splice

end Expression

/-! ## Values -/

/-- What a database knows of expressions. -/
structure ScalarSemantics (V : Type) extends Semantics V where
  /-- The value of a word. -/
  constant : String → Option V
  /-- The value of two words with a point between them. -/
  dotted : String → String → Option V
  /-- The value of a function call in a row. -/
  call : (row : List String → Option V) → String → List Symbol → Option V
  calculate : Arithmetic → V → V → Option V
  /-- A truth value as a value. -/
  boolean : Bool → V
  /-- Whether a value counts as true. -/
  holds : V → Bool
  holds_boolean (b : Bool) : holds (boolean b) = b
  /-- The case of words makes no difference to the rows of a statement. -/
  rows_fold (statement : List Symbol) : rows (statement.map Symbol.fold) = rows statement

namespace ScalarSemantics

variable {V : Type} (db : ScalarSemantics V)

/-- The truth of a value. -/
def truth : Option V → Truth
  | none => .unknown
  | some v => .ofBool (db.holds v)

/-- The value of a truth. -/
def ofTruth : Truth → Option V
  | .yes => some (db.boolean true)
  | .no => some (db.boolean false)
  | .unknown => none

@[simp]
theorem truth_ofTruth (t : Truth) : db.truth (db.ofTruth t) = t := by
  cases t with
  | yes | no =>
    rw [ofTruth, truth, db.holds_boolean]
    rfl
  | unknown => rfl

end ScalarSemantics

section Values

variable {V : Type} (db : ScalarSemantics V) (row : List String → Option V)

/-- The value of an operand in a row. -/
def Atom.value : Atom → Option V
  | .column path => row path
  | .literal text => some (db.text text)
  | .bound v => db.bound v
  | .constant word => db.constant word
  | .dotted first second => db.dotted first second
  | .call function arguments => db.call row function arguments

/-- The value of an operator, given those of its operands. -/
def BinaryOperator.value (x y : Option V) : BinaryOperator → Option V
  | .or => db.ofTruth ((db.truth x).or (db.truth y))
  | .and => db.ofTruth ((db.truth x).and (db.truth y))
  | .compare comparison => db.ofTruth (Semantics.test (db.compare comparison) x y)
  | .differs => db.ofTruth (Semantics.test (db.compare .equal) x y).not
  | .like negated => db.ofTruth ((Semantics.test db.like x y).negate negated)
  | .concat => db.append x y
  | .calculate operation => do db.calculate operation (← x) (← y)

/-- What a test says of a value. -/
def Test.truth (x : Option V) : Test → Truth
  | .isNull negated => (Truth.ofBool x.isNone).negate negated
  | .oneOf negated values => (db.member x (values.map db.bound)).negate negated
  | .inRows negated statement =>
    (db.member x (db.rows (.word "select" :: statement))).negate negated
  | .between negated first last => (db.between x (db.bound first) (db.bound last)).negate negated

/-- The value of an expression in a row. References have none. -/
def Expression.value : Expression → Option V
  | .atom a => a.value db row
  | .reference _ => none
  | .paren inner => inner.value
  | .not inner => db.ofTruth (db.truth inner.value).not
  | .binary op left right => op.value db left.value right.value
  | .test t operand => db.ofTruth (t.truth db operand.value)

/-- The truth of an expression in a row. -/
def Expression.truth (e : Expression) : Truth := db.truth (e.value db row)

namespace Expression

variable (x y : Expression)

theorem truth_test (t : Test) : (test t x).truth db row = t.truth db (x.value db row) :=
  db.truth_ofTruth _

theorem truth_compare (comparison : Comparison) : (binary (.compare comparison) x y).truth db row =
    Semantics.test (db.compare comparison) (x.value db row) (y.value db row) :=
  db.truth_ofTruth _

theorem truth_differs : (binary .differs x y).truth db row =
    (Semantics.test (db.compare .equal) (x.value db row) (y.value db row)).not :=
  db.truth_ofTruth _

theorem truth_like (negated : Bool) : (binary (.like negated) x y).truth db row =
    (Semantics.test db.like (x.value db row) (y.value db row)).negate negated :=
  db.truth_ofTruth _

end Expression

end Values

end MetricLayer.Sql
