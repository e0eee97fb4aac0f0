import MetricLayer.Proofs.Sql.Expression

/-!
# Expressions read from SQL

A reader of SQL expressions with the usual precedence. It goes on with an expression as long as
operators follow that bind as tightly as the place of the expression asks for.

- `readExpression`, `extend` — the reader;
- `expression?` — the expression that a text is read as;
- `readsBack_of_wellFormed` — an expression is read up to an operator that binds less tightly;
- `expression?_eq_some_iff` — the reader reads the symbols of well-formed expressions as these
  expressions, and reads nothing else.
-/

namespace MetricLayer.Sql

/-! ## The reader -/

/-- An operand without operators. -/
def readAtom? : List Symbol → Option (Atom × List Symbol)
  | .name part :: rest => some (.column (readPath [part] rest).1, (readPath [part] rest).2)
  | .literal text :: rest => some (.literal text, rest)
  | .value v :: rest => some (.bound v, rest)
  | .word word :: rest =>
    if word ∈ reserved then none
    else
      match rest with
      | .operator "." :: .word second :: rest => some (.dotted word second, rest)
      | .leftParen :: rest =>
        (readEnclosed 0 rest).map fun (arguments, rest) => (.call word arguments, rest)
      | rest => some (.constant word, rest)
  | _ => none

/-- Values with commas between them, up to the closing parenthesis. -/
def readList? : List Symbol → Option (List Json × List Symbol)
  | .value v :: .rightParen :: rest => some ([v], rest)
  | .value v :: .comma :: rest => (readList? rest).map fun (vs, rest) => (v :: vs, rest)
  | _ => none

/-- A test that may be negated by `not`. -/
def readMembership? (negated : Bool) : List Symbol → Option (Test × List Symbol)
  | .word "in" :: .leftParen :: .word "select" :: rest =>
    (readEnclosed 0 rest).map fun (statement, rest) => (.inRows negated statement, rest)
  | .word "in" :: .leftParen :: rest =>
    (readList? rest).map fun (values, rest) => (.oneOf negated values, rest)
  | .word "between" :: .value first :: .word "and" :: .value last :: rest =>
    some (.between negated first last, rest)
  | _ => none

/-- A test. -/
def readTest? : List Symbol → Option (Test × List Symbol)
  | .word "is" :: .word "null" :: rest => some (.isNull false, rest)
  | .word "is" :: .word "not" :: .word "null" :: rest => some (.isNull true, rest)
  | .word "not" :: rest => readMembership? true rest
  | symbols => readMembership? false symbols

/-- The operators between expressions. -/
def BinaryOperator.all : List BinaryOperator :=
  [.or, .and, .compare .equal, .compare .less, .compare .atMost, .compare .greater,
    .compare .atLeast, .differs, .like false, .like true, .concat, .calculate .add,
    .calculate .subtract, .calculate .multiply, .calculate .divide]

/-- An operator between expressions. -/
def readBinary? (symbols : List Symbol) : Option (BinaryOperator × List Symbol) :=
  BinaryOperator.all.findSome? fun op => (symbols.dropPrefix? op.symbols).map (op, ·)

mutual

/-- An expression of at least the given rank. The first argument bounds the number of symbols. -/
def readExpression : (bound least : Nat) → List Symbol → Option (Expression × List Symbol)
  | 0, _, _ => none
  | bound + 1, least, .leftParen :: symbols => do
    match ← readExpression bound 0 symbols with
    | (inner, .rightParen :: rest) => extend bound least (.paren inner) rest
    | _ => none
  | bound + 1, least, .word "not" :: symbols => do
    if least ≤ notRank then
      let (inner, rest) ← readExpression bound notRank symbols
      extend bound least (.not inner) rest
    else none
  | bound + 1, least, symbols => do
    let (a, rest) ← readAtom? symbols
    extend bound least (.atom a) rest

/-- The expression that starts with a given one and has at least the given rank. -/
def extend : (bound least : Nat) → Expression → List Symbol → Option (Expression × List Symbol)
  | 0, _, _, _ => none
  | bound + 1, least, left, symbols =>
    match readTest? symbols, readBinary? symbols with
    | some (test, rest), _ =>
      if least ≤ comparisonRank ∧ comparisonRank + 1 ≤ left.rank then
        extend bound least (.test test left) rest
      else some (left, symbols)
    | none, some (op, rest) =>
      if least ≤ op.rank ∧ op.leftRank ≤ left.rank then do
        let (right, rest) ← readExpression bound (op.rank + 1) rest
        extend bound least (.binary op left right) rest
      else some (left, symbols)
    | none, none => some (left, symbols)

end

/-- The expression that all symbols together are read as. -/
def expression? (symbols : List Symbol) : Option Expression := do
  match ← readExpression (2 * symbols.length + 1) 0 symbols with
  | (e, []) => return e
  | _ => none

-- Sums group to the left, products bind tighter, and `not` takes the whole comparison.
example : expression? [.word "not", .name "a", .operator "-", .name "b", .operator "-", .word "1",
      .operator "*", .name "c", .operator "=", .word "2", .word "or", .name "d"] =
    some (.binary .or
      (.not (.binary (.compare .equal)
        (.binary (.calculate .subtract)
          (.binary (.calculate .subtract) (.atom (.column ["a"])) (.atom (.column ["b"])))
          (.binary (.calculate .multiply) (.atom (.constant "1")) (.atom (.column ["c"]))))
        (.atom (.constant "2"))))
      (.atom (.column ["d"]))) := by decide +kernel

/-! ### Operands, tests and operators -/

/-- What may stand after an operand: it neither goes on with a name nor makes the operand a call. -/
def EndsOperand (rest : List Symbol) : Prop := ∀ s ∈ rest.head?, s ≠ .leftParen ∧ s ≠ .operator "."

/-- A path takes the names that a dot joins to it. -/
private theorem eq_flatMap_of_readPath {path path' : List String} {ts rest : List Symbol}
    (h : readPath path ts = (path', rest)) : ∃ parts, path' = path ++ parts ∧
      ts = parts.flatMap (fun part => [.operator ".", .name part]) ++ rest := by
  fun_induction readPath path ts with
  | case1 path part ts ih =>
    obtain ⟨parts, rfl, rfl⟩ := ih h
    exact ⟨part :: parts, by simp, by simp⟩
  | case2 path ts =>
    obtain ⟨rfl, rfl⟩ := Prod.mk.inj h
    exact ⟨[], by simp, by simp⟩

private theorem eq_append_of_readEnclosed {depth : Nat} {ts inner rest : List Symbol}
    (h : readEnclosed depth ts = some (inner, rest)) :
    openParens? depth inner = some 0 ∧ ts = inner ++ .rightParen :: rest := by
  -- The reader stops at the parenthesis that closes the first one, and counts those in between.
  fun_induction readEnclosed depth ts generalizing inner with
  | case1 => cases h
  | case2 ts =>
    obtain ⟨rfl, rfl⟩ := Prod.mk.inj (Option.some.inj h)
    exact ⟨rfl, rfl⟩
  | case3 ts depth ih =>
    obtain ⟨⟨inner, rest⟩, hread, heq⟩ := Option.map_eq_some_iff.1 h
    obtain ⟨rfl, rfl⟩ := Prod.mk.inj heq
    obtain ⟨hopen, rfl⟩ := ih hread
    exact ⟨hopen, rfl⟩
  | case4 ts depth ih =>
    obtain ⟨⟨inner, rest⟩, hread, heq⟩ := Option.map_eq_some_iff.1 h
    obtain ⟨rfl, rfl⟩ := Prod.mk.inj heq
    obtain ⟨hopen, rfl⟩ := ih hread
    exact ⟨by rwa [openParens?], rfl⟩
  | case5 depth symbol ts hzero hright hleft ih =>
    obtain ⟨⟨inner, rest⟩, hread, heq⟩ := Option.map_eq_some_iff.1 h
    obtain ⟨rfl, rfl⟩ := Prod.mk.inj heq
    obtain ⟨hopen, rfl⟩ := ih hread
    refine ⟨?_, rfl⟩
    rwa [openParens?] <;> assumption

/-- The symbols of a readable atom are read as that atom, whatever ends the operand behind them. -/
theorem readAtom?_symbols {a : Atom} (h : a.Readable) {rest : List Symbol}
    (hrest : EndsOperand rest) : readAtom? (a.symbols ++ rest) = some (a, rest) := by
  cases a with
  | column path =>
    obtain ⟨part, parts, rfl⟩ := List.exists_cons_of_ne_nil h
    have hpath := readPath_flatMap [part] parts fun s hs => (hrest s hs).2
    rw [Atom.symbols, pathSymbols_cons, List.cons_append, readAtom?, hpath]
    rfl
  | literal text | bound value => rfl
  | constant word =>
    -- What follows makes the word neither a longer name nor a call.
    rw [Atom.symbols, List.singleton_append, readAtom?, if_neg h]
    · rintro second rest' rfl
      exact (hrest _ rfl).2 rfl
    · rintro rest' rfl
      exact (hrest _ rfl).1 rfl
  | dotted first second => exact if_neg h
  | call function arguments =>
    have hread := readEnclosed_append h.2 rest
    have htext : (Atom.call function arguments).symbols ++ rest =
        .word function :: .leftParen :: (arguments ++ .rightParen :: rest) := by
      simp [Atom.symbols]
    rw [htext, readAtom?, if_neg h.1]
    dsimp only
    rw [hread]
    rfl

/-- What is read as an atom is the symbols of that atom and nothing else. -/
theorem eq_symbols_of_readAtom? {a : Atom} {ts rest : List Symbol}
    (h : readAtom? ts = some (a, rest)) : a.Readable ∧ ts = a.symbols ++ rest := by
  unfold readAtom? at h
  split at h
  · rename_i part ts
    obtain ⟨rfl, rfl⟩ := Prod.mk.inj (Option.some.inj h)
    obtain ⟨parts, hpath, hts⟩ := eq_flatMap_of_readPath (rfl : readPath [part] ts = (_, _))
    rw [hpath]
    refine ⟨by simp [Atom.Readable], ?_⟩
    rw [Atom.symbols, List.singleton_append, pathSymbols_cons, List.cons_append, ← hts]
  · obtain ⟨rfl, rfl⟩ := Prod.mk.inj (Option.some.inj h)
    exact ⟨trivial, rfl⟩
  · obtain ⟨rfl, rfl⟩ := Prod.mk.inj (Option.some.inj h)
    exact ⟨trivial, rfl⟩
  · split_ifs at h with hword
    split at h
    · obtain ⟨rfl, rfl⟩ := Prod.mk.inj (Option.some.inj h)
      exact ⟨hword, rfl⟩
    · obtain ⟨⟨arguments, rest⟩, hread, heq⟩ := Option.map_eq_some_iff.1 h
      obtain ⟨rfl, rfl⟩ := Prod.mk.inj heq
      obtain ⟨hbalanced, rfl⟩ := eq_append_of_readEnclosed hread
      exact ⟨⟨hword, hbalanced⟩, by simp [Atom.symbols]⟩
    · obtain ⟨rfl, rfl⟩ := Prod.mk.inj (Option.some.inj h)
      exact ⟨hword, rfl⟩
  · cases h

/-- A list of values is read back up to its closing parenthesis. -/
private theorem readList?_valueSymbols {values : List Json} (hvalues : values ≠ [])
    (rest : List Symbol) :
    readList? (valueSymbols values ++ .rightParen :: rest) = some (values, rest) := by
  induction values with
  | nil => exact absurd rfl hvalues
  | cons v values ih =>
    cases values with
    | nil => rfl
    | cons w values =>
      have htext : valueSymbols (v :: w :: values) =
          .value v :: .comma :: valueSymbols (w :: values) := by
        simp [valueSymbols, List.intercalate_cons_cons]
      rw [htext, List.cons_append, List.cons_append, readList?, ih (by simp)]
      rfl

private theorem eq_valueSymbols_of_readList? {values : List Json} {ts rest : List Symbol}
    (h : readList? ts = some (values, rest)) :
    values ≠ [] ∧ ts = valueSymbols values ++ .rightParen :: rest := by
  fun_induction readList? ts generalizing values with
  | case1 v ts =>
    obtain ⟨rfl, rfl⟩ := Prod.mk.inj (Option.some.inj h)
    exact ⟨by simp, rfl⟩
  | case2 v ts ih =>
    obtain ⟨⟨values, rest⟩, hread, heq⟩ := Option.map_eq_some_iff.1 h
    obtain ⟨rfl, rfl⟩ := Prod.mk.inj heq
    obtain ⟨hne, rfl⟩ := ih hread
    obtain ⟨w, values, rfl⟩ := List.exists_cons_of_ne_nil hne
    exact ⟨by simp, by simp [valueSymbols, List.intercalate_cons_cons]⟩
  | case3 => cases h

theorem readTest?_symbols {t : Test} (h : t.Readable) (rest : List Symbol) :
    readTest? (t.symbols ++ rest) = some (t, rest) := by
  cases t with
  | isNull negated => cases negated <;> rfl
  | between negated first last => cases negated <;> rfl
  | inRows negated statement =>
    have hread : readMembership? negated (.word "in" :: .leftParen :: .word "select" ::
        (statement ++ .rightParen :: rest)) = some (.inRows negated statement, rest) := by
      rw [readMembership?, readEnclosed_append h rest]
      rfl
    cases negated <;> simpa [Test.symbols, negation, readTest?] using hread
  | oneOf negated values =>
    have hread : readMembership? negated (.word "in" :: .leftParen ::
        (valueSymbols values ++ .rightParen :: rest)) = some (.oneOf negated values, rest) := by
      rw [readMembership?, readList?_valueSymbols h rest]
      · rfl
      · -- What is listed starts with a value, so it is no statement.
        obtain ⟨v, values, rfl⟩ := List.exists_cons_of_ne_nil h
        intro rest' heq
        cases values <;> cases heq
    cases negated <;> simpa [Test.symbols, negation, readTest?] using hread

private theorem eq_symbols_of_readMembership? {negated : Bool} {t : Test} {ts rest : List Symbol}
    (h : readMembership? negated ts = some (t, rest)) : t.Readable ∧
      (if negated then [.word "not"] else []) ++ ts = t.symbols ++ rest := by
  unfold readMembership? at h
  split at h
  · obtain ⟨⟨statement, rest⟩, hread, heq⟩ := Option.map_eq_some_iff.1 h
    obtain ⟨rfl, rfl⟩ := Prod.mk.inj heq
    obtain ⟨hbalanced, rfl⟩ := eq_append_of_readEnclosed hread
    exact ⟨hbalanced, by simp [Test.symbols, negation]⟩
  · obtain ⟨⟨values, rest⟩, hread, heq⟩ := Option.map_eq_some_iff.1 h
    obtain ⟨rfl, rfl⟩ := Prod.mk.inj heq
    obtain ⟨hne, rfl⟩ := eq_valueSymbols_of_readList? hread
    exact ⟨hne, by simp [Test.symbols, negation]⟩
  · obtain ⟨rfl, rfl⟩ := Prod.mk.inj (Option.some.inj h)
    exact ⟨trivial, by simp [Test.symbols, negation]⟩
  · cases h

/-- What is read as a test is the symbols of that test and nothing else. -/
theorem eq_symbols_of_readTest? {t : Test} {ts rest : List Symbol}
    (h : readTest? ts = some (t, rest)) : t.Readable ∧ ts = t.symbols ++ rest := by
  unfold readTest? at h
  split at h
  · obtain ⟨rfl, rfl⟩ := Prod.mk.inj (Option.some.inj h)
    exact ⟨trivial, rfl⟩
  · obtain ⟨rfl, rfl⟩ := Prod.mk.inj (Option.some.inj h)
    exact ⟨trivial, rfl⟩
  · exact eq_symbols_of_readMembership? h
  · exact eq_symbols_of_readMembership? h

theorem eq_symbols_of_readBinary? {op : BinaryOperator} {ts rest : List Symbol}
    (h : readBinary? ts = some (op, rest)) : ts = op.symbols ++ rest := by
  obtain ⟨op', -, hop⟩ := List.exists_of_findSome?_eq_some h
  obtain ⟨rest', hrest, heq⟩ := Option.map_eq_some_iff.1 hop
  obtain ⟨rfl, rfl⟩ := Prod.mk.inj heq
  obtain ⟨_, rfl, hsymbols⟩ := List.dropPrefix?_eq_some_iff.1 hrest
  rw [eq_of_beq hsymbols]

private theorem mem_all (op : BinaryOperator) : op ∈ BinaryOperator.all := by
  cases op with
  | compare comparison => cases comparison <;> decide
  | calculate operation => cases operation <;> decide
  | like negated => cases negated <;> decide
  | _ => decide

/-- No operator starts with another one. -/
private theorem eq_of_symbols_initial :
    ∀ op ∈ BinaryOperator.all, ∀ op' ∈ BinaryOperator.all, op.symbols <+: op'.symbols → op = op' := by
  decide

theorem readBinary?_symbols (op : BinaryOperator) (rest : List Symbol) :
    readBinary? (op.symbols ++ rest) = some (op, rest) := by
  have hsome : (readBinary? (op.symbols ++ rest)).isSome = true := by
    refine List.findSome?_isSome_iff.2 ⟨op, mem_all op, ?_⟩
    rw [Option.isSome_map, List.dropPrefix?_eq_some_iff.2 ⟨op.symbols, rfl, beq_self_eq_true _⟩]
    rfl
  obtain ⟨⟨op', rest'⟩, hread⟩ := Option.isSome_iff_exists.1 hsome
  have htext := eq_symbols_of_readBinary? hread
  -- Both operators start the same symbols.
  obtain rfl : op = op' := by
    rcases List.prefix_or_prefix_of_prefix (List.prefix_append op.symbols rest) ⟨rest', htext.symm⟩
      with h | h
    · exact eq_of_symbols_initial _ (mem_all op) _ (mem_all op') h
    · exact (eq_of_symbols_initial _ (mem_all op') _ (mem_all op) h).symm
  obtain rfl := List.append_cancel_left htext
  exact hread

/-- An operator is no test. -/
theorem readTest?_operator (op : BinaryOperator) (rest : List Symbol) :
    readTest? (op.symbols ++ rest) = none := by
  cases op with
  | compare comparison => cases comparison <;> rfl
  | calculate operation => cases operation <;> rfl
  | like negated => cases negated <;> rfl
  | _ => rfl

/-! ### Reading whole expressions -/

/-- The rank of the test or operator that comes next. -/
def nextRank (symbols : List Symbol) : Nat :=
  match readTest? symbols, readBinary? symbols with
  | some _, _ => comparisonRank
  | none, some (op, _) => op.rank
  | none, none => 0

/-- A test announces the rank of a comparison. -/
theorem nextRank_test {t : Test} (h : t.Readable) (rest : List Symbol) :
    nextRank (t.symbols ++ rest) = comparisonRank := by
  rw [nextRank, readTest?_symbols h]

/-- An operator announces its own rank. -/
theorem nextRank_operator (op : BinaryOperator) (rest : List Symbol) :
    nextRank (op.symbols ++ rest) = op.rank := by
  rw [nextRank, readTest?_operator, readBinary?_symbols]

/-- Nothing that comes next has the rank of `not`. -/
private theorem nextRank_ne_notRank (symbols : List Symbol) : nextRank symbols ≠ notRank := by
  unfold nextRank
  split
  · decide
  · exact BinaryOperator.rank_ne_notRank _
  · decide

/-- An expression ends before an operator of a lower rank than asked for, and where no operator
comes next. -/
private theorem extend_of_nextRank {bound least : Nat} (left : Expression) {symbols : List Symbol}
    (h : nextRank symbols < least ∨ nextRank symbols = 0) :
    extend (bound + 1) least left symbols = some (left, symbols) := by
  unfold nextRank at h
  unfold extend
  -- The rank of what comes next is that of the test or operator that would be read.
  cases htest : readTest? symbols with
  | some result =>
    rw [htest] at h
    have hrank : ¬least ≤ comparisonRank := by simpa using h
    exact if_neg fun hfits => hrank hfits.1
  | none =>
    cases hbinary : readBinary? symbols with
    | some result =>
      obtain ⟨op, rest⟩ := result
      rw [htest, hbinary] at h
      have hrank : ¬least ≤ op.rank := by
        have := op.rank_pos
        dsimp only at h
        omega
      exact if_neg fun hfits => hrank hfits.1
    | none => rfl

private theorem endsOperand_test (t : Test) (rest : List Symbol) :
    EndsOperand (t.symbols ++ rest) := by
  cases t with
  | isNull negated => simp [EndsOperand, Test.symbols]
  | oneOf negated _ | inRows negated _ | between negated _ _ =>
    cases negated <;> simp [EndsOperand, Test.symbols, negation]

/-- Every operator has a first symbol, which goes on with no operand. -/
private theorem BinaryOperator.exists_symbols_eq (op : BinaryOperator) : ∃ s ts, op.symbols = s :: ts ∧
    s ≠ .leftParen ∧ s ≠ .operator "." ∧ s ≠ .rightParen := by
  have hhead : ∀ op ∈ all, ∃ s ∈ op.symbols.head?,
      s ≠ .leftParen ∧ s ≠ .operator "." ∧ s ≠ .rightParen := by decide
  obtain ⟨s, hs, h⟩ := hhead op (mem_all op)
  obtain ⟨ts, hts⟩ := List.head?_eq_some_iff.1 hs
  exact ⟨s, ts, hts, h⟩

private theorem endsOperand_operator (op : BinaryOperator) (rest : List Symbol) :
    EndsOperand (op.symbols ++ rest) := by
  obtain ⟨s, ts, hts, hparen, hpoint, -⟩ := op.exists_symbols_eq
  rw [hts]
  rintro _ ⟨⟩
  exact ⟨hparen, hpoint⟩

private theorem Test.symbols_ne_nil (t : Test) : t.symbols ≠ [] := by
  cases t <;> simp [symbols]

/-- An operand starts neither with a parenthesis nor with `not`. -/
private theorem Atom.exists_symbols_eq {a : Atom} (h : a.Readable) : ∃ s ts, a.symbols = s :: ts ∧
    s ≠ .leftParen ∧ s ≠ .word "not" := by
  have hnot {word : String} (hword : word ∉ reserved) : Symbol.word word ≠ .word "not" := by
    rintro heq
    obtain rfl := Symbol.word.inj heq
    exact hword (by decide)
  cases a with
  | column path =>
    obtain ⟨part, parts, rfl⟩ := List.exists_cons_of_ne_nil h
    exact ⟨_, _, pathSymbols_cons part parts, by simp, by simp⟩
  | literal text | bound value => exact ⟨_, _, rfl, by simp, by simp⟩
  | constant word | dotted word second => exact ⟨_, _, rfl, by simp, hnot h⟩
  | call function arguments => exact ⟨_, _, rfl, by simp, hnot h.1⟩

private theorem nextRank_rightParen (rest : List Symbol) : nextRank (.rightParen :: rest) = 0 := by
  have hnone : readBinary? (.rightParen :: rest) = none := by
    refine Option.eq_none_iff_forall_ne_some.2 fun result h => ?_
    obtain ⟨s, ts, hts, -, -, hright⟩ := result.1.exists_symbols_eq
    have htext := eq_symbols_of_readBinary? h
    rw [hts] at htext
    exact hright (List.cons.inj htext).1.symm
  rw [nextRank, hnone]
  rfl

/-- From the symbols of an expression the reader comes to the expression, with enough of its bound
left for what follows. -/
def ReadsBack (fill : String → List Symbol) (e : Expression) : Prop :=
  ∀ bound least rest, least ≤ e.rank → nextRank rest ≤ e.rank → EndsOperand rest →
    2 * (e.symbols fill).length ≤ bound →
    ∃ bound', bound ≤ bound' + 2 * (e.symbols fill).length ∧
      readExpression bound least (e.symbols fill ++ rest) = extend bound' least e rest

namespace ReadsBack

variable {fill : String → List Symbol} {e left right : Expression}

private theorem atom {a : Atom} (ha : a.Readable) : ReadsBack fill (.atom a) := by
  intro bound least rest _ _ hends hbound
  obtain ⟨s, ts, hsymbols, hparen, hnot⟩ := Atom.exists_symbols_eq ha
  have hread := readAtom?_symbols ha hends
  rw [Expression.symbols, hsymbols, List.length_cons] at hbound ⊢
  obtain ⟨bound, rfl⟩ : ∃ b, bound = b + 1 := ⟨bound - 1, by omega⟩
  refine ⟨bound, by omega, ?_⟩
  rw [hsymbols, List.cons_append] at hread
  rw [List.cons_append, readExpression, hread]
  · rfl
  · rintro symbols heq
    exact hparen (List.cons.inj heq).1
  · rintro symbols heq
    exact hnot (List.cons.inj heq).1

private theorem paren (he : ReadsBack fill e) : ReadsBack fill (.paren e) := by
  intro bound least rest _ _ _ hbound
  simp only [Expression.symbols, List.length_cons, List.length_append, List.length_nil] at hbound ⊢
  obtain ⟨bound, rfl⟩ : ∃ b, bound = b + 1 := ⟨bound - 1, by omega⟩
  -- The closing parenthesis ends the expression within, whatever comes after it.
  obtain ⟨bound', hbound', hinner⟩ := he bound 0 (.rightParen :: rest) (Nat.zero_le _)
    (by simp [nextRank_rightParen]) (by simp [EndsOperand]) (by omega)
  obtain ⟨bound', rfl⟩ : ∃ b, bound' = b + 1 := ⟨bound' - 1, by omega⟩
  refine ⟨bound, by omega, ?_⟩
  rw [List.cons_append, List.append_assoc, List.singleton_append, readExpression, hinner,
    extend_of_nextRank e (.inr (nextRank_rightParen rest))]
  rfl

private theorem not (he : ReadsBack fill e) (hrank : notRank ≤ e.rank) :
    ReadsBack fill (.not e) := by
  intro bound least rest hleast hnext hends hbound
  simp only [Expression.symbols, List.length_cons] at hbound ⊢
  obtain ⟨bound, rfl⟩ : ∃ b, bound = b + 1 := ⟨bound - 1, by omega⟩
  obtain ⟨bound', hbound', hinner⟩ :=
    he bound notRank rest hrank (hnext.trans hrank) hends (by omega)
  obtain ⟨bound', rfl⟩ : ∃ b, bound' = b + 1 := ⟨bound' - 1, by omega⟩
  have hlower : nextRank rest < notRank := lt_of_le_of_ne hnext (nextRank_ne_notRank rest)
  refine ⟨bound, by omega, ?_⟩
  rw [List.cons_append, readExpression, if_pos (show least ≤ notRank from hleast), hinner,
    extend_of_nextRank e (.inl hlower)]
  rfl

/-- Operands that read back and bind tightly enough read back under their operator. -/
private theorem binary {op : BinaryOperator} (hleft : ReadsBack fill left)
    (hleftRank : op.leftRank ≤ left.rank) (hright : ReadsBack fill right)
    (hrightRank : op.rank + 1 ≤ right.rank) : ReadsBack fill (.binary op left right) := by
  intro bound least rest hleast hnext hends hbound
  simp only [Expression.symbols, List.length_append] at hbound ⊢
  have hop : 0 < op.symbols.length := by
    obtain ⟨s, ts, hts, -⟩ := op.exists_symbols_eq
    rw [hts]
    exact Nat.succ_pos _
  have hopRank : op.rank ≤ left.rank := op.rank_le_leftRank.trans hleftRank
  -- The left operand ends before the operator.
  obtain ⟨bound', hbound', hreadLeft⟩ := hleft bound least
    (op.symbols ++ (right.symbols fill ++ rest)) (hleast.trans hopRank)
    (by rwa [nextRank_operator]) (endsOperand_operator op _) (by omega)
  obtain ⟨bound', rfl⟩ : ∃ b, bound' = b + 1 := ⟨bound' - 1, by omega⟩
  -- The right operand takes no operator of the same rank, so operators group to the left.
  have hnext' : nextRank rest ≤ right.rank := hnext.trans (Nat.le_of_succ_le hrightRank)
  obtain ⟨bound'', hbound'', hreadRight⟩ := hright bound' (op.rank + 1) rest hrightRank hnext'
    hends (by omega)
  obtain ⟨bound'', rfl⟩ : ∃ b, bound'' = b + 1 := ⟨bound'' - 1, by omega⟩
  have hlower : nextRank rest < op.rank + 1 := Nat.lt_succ_of_le hnext
  refine ⟨bound', by omega, ?_⟩
  rw [List.append_assoc, List.append_assoc, hreadLeft, extend, readTest?_operator,
    readBinary?_symbols]
  dsimp only
  rw [if_pos ⟨hleast, hleftRank⟩, hreadRight, extend_of_nextRank right (.inl hlower)]
  rfl

/-- An operand that reads back and binds more tightly than a comparison reads back under a test. -/
private theorem test {t : Test} (ht : t.Readable) (he : ReadsBack fill e)
    (hrank : comparisonRank + 1 ≤ e.rank) : ReadsBack fill (.test t e) := by
  intro bound least rest hleast hnext hends hbound
  simp only [Expression.symbols, List.length_append] at hbound ⊢
  have hlength : 0 < t.symbols.length := List.length_pos_of_ne_nil t.symbols_ne_nil
  obtain ⟨bound', hbound', hread⟩ := he bound least (t.symbols ++ rest)
    (hleast.trans (Nat.le_of_succ_le hrank))
    (by rw [nextRank_test ht]; exact Nat.le_of_succ_le hrank) (endsOperand_test t _) (by omega)
  obtain ⟨bound', rfl⟩ : ∃ b, bound' = b + 1 := ⟨bound' - 1, by omega⟩
  refine ⟨bound', by omega, ?_⟩
  rw [List.append_assoc, hread, extend, readTest?_symbols ht]
  dsimp only
  rw [if_pos ⟨hleast, hrank⟩]

end ReadsBack

/-- The reader comes back to every expression that text can be read as. -/
theorem readsBack_of_wellFormed (fill : String → List Symbol) {e : Expression}
    (hreadable : e.Readable) (hclosed : e.Closed) (htight : e.Tight) : ReadsBack fill e := by
  induction e with
  | atom a => exact .atom hreadable
  | reference path => exact hclosed.elim
  | paren inner ih => exact .paren (ih hreadable hclosed htight)
  | not inner ih => exact .not (ih hreadable hclosed htight.2) htight.1
  | binary op left right ihl ihr =>
    obtain ⟨⟨hleftRank, hleft⟩, hrightRank, hright⟩ := htight
    exact .binary (ihl hreadable.1 hclosed.1 hleft) hleftRank
      (ihr hreadable.2 hclosed.2 hright) hrightRank
  | test t operand ih => exact .test hreadable.1 (ih hreadable.2 hclosed htight.2) htight.1

/-- An expression of at least the given rank was read from some symbols up to the rest. -/
private structure ReadFrom (least : Nat) (ts : List Symbol) (e : Expression) (rest : List Symbol) :
    Prop where
  wellFormed : e.WellFormed
  rank : least ≤ e.rank
  text (fill : String → List Symbol) : ts = e.symbols fill ++ rest

namespace ReadFrom

variable {least : Nat} {ts rest rest' : List Symbol} {e right : Expression}

private theorem atom {a : Atom} (h : readAtom? ts = some (a, rest)) (hleast : least ≤ atomRank) :
    ReadFrom least ts (.atom a) rest :=
  have hread := eq_symbols_of_readAtom? h
  ⟨⟨hread.1, trivial, trivial⟩, hleast, fun _ => hread.2⟩

private theorem paren (h : ReadFrom 0 ts e (.rightParen :: rest)) (hleast : least ≤ atomRank) :
    ReadFrom least (.leftParen :: ts) (.paren e) rest := by
  obtain ⟨⟨hreadable, hclosed, htight⟩, -, htext⟩ := h
  refine ⟨⟨hreadable, hclosed, htight⟩, hleast, fun fill => ?_⟩
  rw [htext fill, Expression.symbols, List.cons_append, List.append_assoc]
  rfl

private theorem not (h : ReadFrom notRank ts e rest) (hleast : least ≤ notRank) :
    ReadFrom least (.word "not" :: ts) (.not e) rest := by
  obtain ⟨⟨hreadable, hclosed, htight⟩, hrank, htext⟩ := h
  refine ⟨⟨hreadable, hclosed, hrank, htight⟩, hleast, fun fill => ?_⟩
  rw [htext fill]
  rfl

private theorem test (h : ReadFrom least ts e rest) {t : Test}
    (ht : readTest? rest = some (t, rest')) (hleast : least ≤ comparisonRank)
    (hrank : comparisonRank + 1 ≤ e.rank) : ReadFrom least ts (.test t e) rest' := by
  obtain ⟨⟨hreadable, hclosed, htight⟩, -, htext⟩ := h
  obtain ⟨hreadableTest, rfl⟩ := eq_symbols_of_readTest? ht
  refine ⟨⟨⟨hreadableTest, hreadable⟩, hclosed, hrank, htight⟩, hleast, fun fill => ?_⟩
  rw [htext fill, Expression.symbols, List.append_assoc]

/-- A left operand already read is taken up by the operator behind it, if it binds tightly enough.
-/
private theorem binary {op : BinaryOperator} {after : List Symbol} (h : ReadFrom least ts e rest)
    (hop : readBinary? rest = some (op, after)) (hright : ReadFrom (op.rank + 1) after right rest')
    (hleast : least ≤ op.rank) (hrank : op.leftRank ≤ e.rank) :
    ReadFrom least ts (.binary op e right) rest' := by
  obtain ⟨⟨hreadable, hclosed, htight⟩, -, htext⟩ := h
  obtain ⟨⟨hreadableRight, hclosedRight, htightRight⟩, hrankRight, htextRight⟩ := hright
  refine ⟨⟨⟨hreadable, hreadableRight⟩, ⟨hclosed, hclosedRight⟩, ⟨hrank, htight⟩, hrankRight,
    htightRight⟩, hleast, fun fill => ?_⟩
  rw [htext fill, eq_symbols_of_readBinary? hop, htextRight fill, Expression.symbols,
    List.append_assoc, List.append_assoc]

end ReadFrom

/-- What the reader reads is in the grammar. By induction on the bound that both of its functions
share. -/
private theorem readFrom_of_read (bound : Nat) :
    (∀ {least ts e rest}, least ≤ atomRank → readExpression bound least ts = some (e, rest) →
      ReadFrom least ts e rest) ∧
    ∀ {least ts left rest e rest'}, ReadFrom least ts left rest →
      extend bound least left rest = some (e, rest') → ReadFrom least ts e rest' := by
  induction bound with
  | zero => exact ⟨nofun, nofun⟩
  | succ bound ih =>
    obtain ⟨ihRead, ihExtend⟩ := ih
    constructor
    · -- An operand is an expression in parentheses, a negated one or an atom; then it is extended.
      intro least ts e rest hleast h
      unfold readExpression at h
      split at h
      · cases h
      · rename_i hbound
        obtain rfl := Nat.succ.inj hbound
        obtain ⟨⟨inner, after⟩, hinner, h⟩ := Option.bind_eq_some_iff.1 h
        split at h
        · rename_i hresult
          obtain ⟨rfl, rfl⟩ := Prod.mk.inj hresult
          exact ihExtend ((ihRead (Nat.zero_le _) hinner).paren hleast) h
        · cases h
      · rename_i hbound
        obtain rfl := Nat.succ.inj hbound
        split_ifs at h with hfits
        obtain ⟨⟨inner, after⟩, hinner, h⟩ := Option.bind_eq_some_iff.1 h
        exact ihExtend ((ihRead (by decide) hinner).not hfits) h
      · rename_i hbound _ _
        obtain rfl := Nat.succ.inj hbound
        obtain ⟨⟨a, after⟩, hatom, h⟩ := Option.bind_eq_some_iff.1 h
        exact ihExtend (.atom hatom hleast) h
    · -- What is read so far is extended by a test or a second operand, as long as its rank allows
      -- for it.
      intro least ts left rest e rest' hleft h
      unfold extend at h
      split at h
      · rename_i htest
        split_ifs at h with hfits
        · exact ihExtend (hleft.test htest hfits.1 hfits.2) h
        · obtain ⟨rfl, rfl⟩ := Prod.mk.inj (Option.some.inj h)
          exact hleft
      · rename_i op after _ hop
        split_ifs at h with hfits
        · obtain ⟨⟨right, last⟩, hright, h⟩ := Option.bind_eq_some_iff.1 h
          have hreadRight := ihRead op.rank_lt_atomRank hright
          exact ihExtend (hleft.binary hop hreadRight hfits.1 hfits.2) h
        · obtain ⟨rfl, rfl⟩ := Prod.mk.inj (Option.some.inj h)
          exact hleft
      · obtain ⟨rfl, rfl⟩ := Prod.mk.inj (Option.some.inj h)
        exact hleft

/-- The reader reads the symbols of the expressions of the grammar, and nothing else. -/
theorem expression?_eq_some_iff (fill : String → List Symbol) {ts : List Symbol} {e : Expression} :
    expression? ts = some e ↔ e.WellFormed ∧ ts = e.symbols fill := by
  constructor
  · intro h
    obtain ⟨⟨e', rest⟩, hread, h⟩ := Option.bind_eq_some_iff.1 h
    obtain ⟨hwell, -, htext⟩ := (readFrom_of_read _).1 (Nat.zero_le _) hread
    split at h
    · rename_i hresult
      obtain ⟨rfl, rfl⟩ := Prod.mk.inj hresult
      obtain rfl := Option.some.inj h
      exact ⟨hwell, by rw [htext fill, List.append_nil]⟩
    · cases h
  · rintro ⟨⟨hreadable, hclosed, htight⟩, rfl⟩
    obtain ⟨bound', hbound', hread⟩ := readsBack_of_wellFormed fill hreadable hclosed htight
      (2 * (e.symbols fill).length + 1) 0 [] (Nat.zero_le _)
      (Nat.zero_le _) (by simp [EndsOperand]) (Nat.le_succ _)
    obtain ⟨bound', rfl⟩ : ∃ b, bound' = b + 1 := ⟨bound' - 1, by omega⟩
    have hend : nextRank [] = 0 := by decide
    rw [List.append_nil, extend_of_nextRank e (.inr hend)] at hread
    rw [expression?, hread]
    rfl

/-! ## Expressions of fragments -/

namespace Fragment

/-- The symbols of a fragment in lower case. -/
def folded? (f : Fragment) : Option (List Symbol) := f.symbols?.map (·.map Symbol.fold)

/-- The expression that a fragment is read as. -/
def expression? (f : Fragment) : Option Expression := f.folded?.bind Sql.expression?

/-- The fragment is written like an expression, whatever it is read as. -/
def Spells (f : Fragment) (e : Expression) : Prop := f.folded? = some (e.symbols fun _ => [])

/-- A fragment is read as an expression if it is written like this expression and if text can be
read as it. -/
theorem expression?_eq_some_iff {f : Fragment} {e : Expression} :
    f.expression? = some e ↔ f.Spells e ∧ e.WellFormed := by
  rw [expression?, Option.bind_eq_some_iff]
  constructor
  · rintro ⟨ts, hts, h⟩
    obtain ⟨hwell, rfl⟩ := (Sql.expression?_eq_some_iff fun _ => []).1 h
    exact ⟨hts, hwell⟩
  · rintro ⟨hspells, hwell⟩
    exact ⟨_, hspells, (Sql.expression?_eq_some_iff fun _ => []).2 ⟨hwell, rfl⟩⟩

end Fragment

end MetricLayer.Sql
