import MetricLayer.Proofs.Sql.Condition

/-!
# Phrases

Symbols that are read as one condition wherever a predicate may stand, whatever follows them.

- `phrase_compare`, `phrase_oneOf`, `phrase_between` and others — what is said of a qualified name
  is a phrase;
- `phrase_conjunction`, `phrase_disjunction` — phrases joined by a connective and put in parentheses
  are a phrase;
- `condition?_conjunction` — phrases joined by `and` are read as a conjunction without parentheses.
-/

namespace MetricLayer.Sql

/-- What may follow a condition. -/
def conditionFollow : List Symbol := [.rightParen]

/-- What may follow a conjunction. -/
def conjunctionFollow : List Symbol := .word "or" :: conditionFollow

/-- What may follow a predicate. -/
def predicateFollow : List Symbol := .word "and" :: conjunctionFollow

/-- Symbols that are empty or start with one of the given ones. -/
def FollowedBy (follow rest : List Symbol) : Prop := ∀ symbol ∈ rest.head?, symbol ∈ follow

/-- Symbols that are read as a condition wherever a predicate may stand. A symbol takes the reader
at most three steps, one for each level of precedence. -/
def Phrase (symbols : List Symbol) (c : Condition) : Prop :=
  symbols ≠ [] ∧ ∀ bound rest, 3 * symbols.length ≤ bound → FollowedBy predicateFollow rest →
    predicate bound (symbols ++ rest) = some (c, rest)

/-! ## Operands -/

theorem pathSymbols_cons (part : String) (parts : List String) :
    pathSymbols (part :: parts) =
      .name part :: parts.flatMap fun part => [.operator ".", .name part] := by
  induction parts generalizing part with
  | nil => rfl
  | cons next rest ih =>
    rw [pathSymbols, ih]
    · rfl
    · simp

/-- A path of names is read whole when no further dot follows it. -/
theorem readPath_flatMap (path parts : List String) {rest : List Symbol}
    (h : ∀ symbol ∈ rest.head?, symbol ≠ .operator ".") :
    readPath path (parts.flatMap (fun part => [.operator ".", .name part]) ++ rest) =
      (path ++ parts, rest) := by
  induction parts generalizing path with
  | nil =>
    rw [List.flatMap_nil, List.nil_append, List.append_nil, readPath]
    rintro part rest' rfl
    exact h _ rfl rfl
  | cons part parts ih =>
    change readPath (path ++ [part]) (parts.flatMap _ ++ rest) = _
    rw [ih, List.append_assoc]
    rfl

private theorem readConcat_eq (x : Operand) {symbol : Symbol} (rest : List Symbol)
    (h : symbol ≠ .operator "||") : readConcat x (symbol :: rest) = (x, symbol :: rest) := by
  rw [readConcat]
  · intro v rest' heq
    exact h (List.cons.inj heq).1
  · intro text rest' heq
    exact h (List.cons.inj heq).1

/-- A qualified name is read up to what follows it. -/
private theorem readOperand_path (part : String) (parts : List String) {symbol : Symbol}
    (rest : List Symbol) (hpoint : symbol ≠ .operator ".") (hconcat : symbol ≠ .operator "||") :
    readOperand (pathSymbols (part :: parts) ++ symbol :: rest) =
      some (.column (part :: parts), symbol :: rest) := by
  rw [pathSymbols_cons, List.cons_append, readOperand, readPath_flatMap _ _ (by simpa)]
  simp only [readConcat_eq _ _ hconcat, List.singleton_append]

/-- Nothing is appended to an operand at the end of a predicate. -/
private theorem readConcat_of_followedBy (x : Operand) {rest : List Symbol}
    (h : FollowedBy predicateFollow rest) : readConcat x rest = (x, rest) := by
  cases rest with
  | nil => rfl
  | cons symbol rest =>
    refine readConcat_eq x rest ?_
    rintro rfl
    exact absurd (h _ rfl) (by decide)

/-- A bound value at the end of a predicate. -/
private theorem readOperand_value (v : Json) {rest : List Symbol}
    (h : FollowedBy predicateFollow rest) :
    readOperand (.value v :: rest) = some (.bound v, rest) := by
  rw [readOperand, readConcat_of_followedBy _ h]

/-- A bound value as a pattern: any text may stand before or after it. -/
def Operand.pattern (before after : Bool) (v : Json) : Operand :=
  let start : Operand := if before then .concat (.literal "%") (.bound v) else .bound v
  if after then .concat start (.literal "%") else start

/-- The symbols of a pattern. -/
def patternSymbols (before after : Bool) (v : Json) : List Symbol :=
  (if before then [.literal "%", .operator "||"] else []) ++ .value v ::
    (if after then [.operator "||", .literal "%"] else [])

/-- A pattern with its wildcards is read back as one operand. -/
private theorem readOperand_pattern (before after : Bool) (v : Json) {rest : List Symbol}
    (h : FollowedBy predicateFollow rest) :
    readOperand (patternSymbols before after v ++ rest) = some (.pattern before after v, rest) := by
  have hread (x : Operand) := readConcat_of_followedBy x h
  cases before <;> cases after <;>
    simp [patternSymbols, Operand.pattern, readOperand, readConcat, hread]

/-! ## Lists and statements in parentheses -/

/-- A list of values between commas is read back up to its closing parenthesis. -/
private theorem readValues_intercalate {values : List Json} (hvalues : values ≠ [])
    (rest : List Symbol) :
    readValues ([.comma].intercalate (values.map ([.value ·])) ++ .rightParen :: rest) =
      some (values.map .bound, rest) := by
  induction values with
  | nil => exact absurd rfl hvalues
  | cons v values ih =>
    cases values with
    | nil => rfl
    | cons w values =>
      rw [List.map_cons, List.map_cons, List.intercalate_cons_cons]
      change (readValues ([.comma].intercalate ((w :: values).map ([.value ·])) ++ _)).map _ = _
      rw [ih (by simp)]
      rfl

/-- How many parentheses are open after some symbols, given how many are open before them. Nothing
where one is closed that is not open. -/
def openParens? : Nat → List Symbol → Option Nat
  | depth, [] => some depth
  | 0, .rightParen :: _ => none
  | depth + 1, .rightParen :: rest => openParens? depth rest
  | depth, .leftParen :: rest => openParens? (depth + 1) rest
  | depth, _ :: rest => openParens? depth rest

/-- Every parenthesis that is opened is closed, and no other. -/
def Balanced (symbols : List Symbol) : Prop := openParens? 0 symbols = some 0

instance (symbols : List Symbol) : Decidable (Balanced symbols) :=
  inferInstanceAs (Decidable (_ = _))

private theorem readEnclosed_append_of_openParens? {depth : Nat} {inner : List Symbol}
    (h : openParens? depth inner = some 0) (rest : List Symbol) :
    readEnclosed depth (inner ++ .rightParen :: rest) = some (inner, rest) := by
  fun_induction openParens? depth inner with
  | case1 depth =>
    obtain rfl := Option.some.inj h
    rfl
  | case2 => cases h
  | case3 depth inner ih =>
    rw [List.cons_append, readEnclosed, ih h]
    rfl
  | case4 depth inner ih =>
    rw [List.cons_append, readEnclosed, ih h]
    rfl
  | case5 depth symbol inner hzero hright hleft ih =>
    rw [List.cons_append, readEnclosed, ih h]
    · rfl
    · exact hleft
    · exact hzero
    · exact hright

/-- Balanced symbols are read up to the parenthesis that closes the one before them. -/
theorem readEnclosed_append {inner : List Symbol} (h : Balanced inner)
    (rest : List Symbol) :
    readEnclosed 0 (inner ++ .rightParen :: rest) = some (inner, rest) :=
  readEnclosed_append_of_openParens? h rest

/-! ## Predicates -/

section Predicates

variable {parts : List String} (hne : parts ≠ [])

include hne

/-- What is said of a qualified name is a phrase. -/
private theorem phrase_of_readPredicate {symbol : Symbol} {us : List Symbol} {c : Condition}
    (hpoint : symbol ≠ .operator ".") (hconcat : symbol ≠ .operator "||")
    (h : ∀ rest, FollowedBy predicateFollow rest →
      readPredicate (.column parts) (symbol :: (us ++ rest)) = some (c, rest)) :
    Phrase (pathSymbols parts ++ symbol :: us) c := by
  obtain ⟨part, parts, rfl⟩ := List.exists_cons_of_ne_nil hne
  refine ⟨by simp, fun bound rest hbound hrest => ?_⟩
  have hread := readOperand_path part parts (us ++ rest) hpoint hconcat
  rw [List.append_assoc, List.cons_append]
  obtain _ | bound := bound
  · simp at hbound
  · -- A name opens no parenthesis.
    rw [pathSymbols_cons, List.cons_append] at hread ⊢
    rw [predicate]
    · rw [hread]
      exact h rest hrest
    · intro symbols heq
      cases heq

/-- A comparison with a bound value. -/
theorem phrase_compare {operator : String} {comparison : Comparison}
    (h : Comparison.ofOperator? operator = some comparison) (v : Json) :
    Phrase (pathSymbols parts ++ [.operator operator, .value v])
      (.compare comparison (.column parts) (.bound v)) := by
  have hpoint : operator ≠ "." := by rintro rfl; cases h
  have hconcat : operator ≠ "||" := by rintro rfl; cases h
  have hnot : operator ≠ "<>" := by rintro rfl; cases h
  refine phrase_of_readPredicate hne (by simpa) (by simpa) fun rest hrest => ?_
  rw [readPredicate]
  · rw [h, List.singleton_append, readOperand_value v hrest]
    rfl
  · intro heq
    exact hnot heq

/-- A value other than the bound one. -/
theorem phrase_differs (v : Json) :
    Phrase (pathSymbols parts ++ [.operator "<>", .value v])
      (.not (.compare .equal (.column parts) (.bound v))) := by
  refine phrase_of_readPredicate hne (by simp) (by simp) fun rest hrest => ?_
  rw [readPredicate, List.singleton_append, readOperand_value v hrest]
  rfl

theorem phrase_isNull :
    Phrase (pathSymbols parts ++ [.word "is", .word "null"]) (.isNull (.column parts)) :=
  phrase_of_readPredicate hne (by simp) (by simp) fun _ _ => rfl

theorem phrase_isNotNull :
    Phrase (pathSymbols parts ++ [.word "is", .word "not", .word "null"])
      (.not (.isNull (.column parts))) :=
  phrase_of_readPredicate hne (by simp) (by simp) fun _ _ => rfl

/-- A test of a qualified name and its negation. -/
private theorem phrase_of_readTest (negated : Bool) {word : String} {us : List Symbol}
    {c : Condition} (hword : word ∉ ["is", "not"])
    (h : ∀ rest, FollowedBy predicateFollow rest →
      readTest (.column parts) (.word word :: (us ++ rest)) = some (c, rest)) :
    Phrase (pathSymbols parts ++ ((if negated then [.word "not"] else []) ++ .word word :: us))
      (c.negate negated) := by
  cases negated with
  | true =>
    refine phrase_of_readPredicate hne (by simp) (by simp) fun rest hrest => ?_
    change (readTest _ (.word word :: (us ++ rest))).map _ = _
    rw [h rest hrest]
    rfl
  | false =>
    refine phrase_of_readPredicate hne (by simp) (by simp) fun rest hrest => ?_
    -- The word is none of those that stand before a test.
    rw [readPredicate]
    · exact h rest hrest
    all_goals
      intros
      simp_all

/-- One of several bound values. -/
theorem phrase_oneOf (negated : Bool) {values : List Json} (hvalues : values ≠ []) :
    Phrase (pathSymbols parts ++ ((if negated then [.word "not"] else []) ++
        .word "in" :: .leftParen ::
          ([.comma].intercalate (values.map ([.value ·])) ++ [.rightParen])))
      ((Condition.oneOf (.column parts) (values.map .bound)).negate negated) := by
  refine phrase_of_readTest hne negated (by decide) fun rest _ => ?_
  have hread := readValues_intercalate hvalues rest
  -- What is listed starts with a value, so it is no statement.
  obtain ⟨v, values, rfl⟩ := List.exists_cons_of_ne_nil hvalues
  rw [List.cons_append, List.append_assoc, List.singleton_append, readTest]
  · rw [hread]
    rfl
  · intro rest heq
    cases values <;> cases heq

/-- One of the rows of a statement. -/
theorem phrase_inRows (negated : Bool) {inner : List Symbol} (h : Balanced inner) :
    Phrase (pathSymbols parts ++ ((if negated then [.word "not"] else []) ++
        .word "in" :: .leftParen :: .word "select" :: (inner ++ [.rightParen])))
      ((Condition.inRows (.column parts) (.word "select" :: inner)).negate negated) := by
  refine phrase_of_readTest hne negated (by decide) fun rest _ => ?_
  rw [List.cons_append, List.cons_append, readTest, List.append_assoc, List.singleton_append,
    readEnclosed_append h]
  rfl

/-- Between two bound values. The `and` between them does not end the predicate. -/
theorem phrase_between (negated : Bool) (first last : Json) :
    Phrase (pathSymbols parts ++ ((if negated then [.word "not"] else []) ++
        [.word "between", .value first, .word "and", .value last]))
      ((Condition.between (.column parts) (.bound first) (.bound last)).negate negated) := by
  refine phrase_of_readTest hne negated (by decide) fun rest hrest => ?_
  -- The first end stops at the `and`, and the last one at the end of the predicate.
  have hfirst (rest : List Symbol) : readOperand (.value first :: .word "and" :: rest) =
      some (.bound first, .word "and" :: rest) := by
    rw [readOperand, readConcat_eq _ _ (by simp)]
  change readTest _ (.word "between" :: .value first :: .word "and" :: .value last :: rest) = _
  rw [readTest, hfirst]
  simp [readOperand_value last hrest]

/-- A bound value with wildcards around it. -/
theorem phrase_like (negated before after : Bool) (v : Json) :
    Phrase (pathSymbols parts ++ ((if negated then [.word "not"] else []) ++
        .word "ilike" :: patternSymbols before after v))
      ((Condition.like (.column parts) (.pattern before after v)).negate negated) := by
  refine phrase_of_readTest hne negated (by decide) fun rest hrest => ?_
  rw [readTest, readOperand_pattern before after v hrest]
  rfl

end Predicates

/-! ## Phrases joined by a connective -/

private theorem followedBy_nil (follow : List Symbol) : FollowedBy follow [] := by
  rintro _ ⟨⟩

private theorem followedBy_cons {follow : List Symbol} {symbol : Symbol} (h : symbol ∈ follow)
    (rest : List Symbol) : FollowedBy follow (symbol :: rest) := by
  rintro _ ⟨⟩
  exact h

/-- What may follow a longer expression may follow the shorter ones in it. -/
private theorem FollowedBy.mono {follow follow' rest : List Symbol} (h : FollowedBy follow rest)
    (hsub : follow ⊆ follow') : FollowedBy follow' rest :=
  fun symbol hsymbol => hsub (h symbol hsymbol)

section Steps

variable {bound : Nat} {symbols rest rest' : List Symbol} {c c' : Condition}

private theorem conjunction_of_predicate (h : predicate bound symbols = some (c, rest))
    (hrest : FollowedBy conjunctionFollow rest) :
    conjunction (bound + 1) symbols = some (c, rest) := by
  rw [conjunction, h]
  cases rest with
  | nil => rfl
  | cons symbol rest =>
    have hsymbol : symbol ≠ .word "and" := by
      rintro rfl
      exact absurd (hrest _ rfl) (by decide)
    simp [hsymbol]

/-- A predicate and the conjunction behind an `and` are read as their conjunction. -/
private theorem conjunction_of_and (h : predicate bound symbols = some (c, .word "and" :: rest))
    (h' : conjunction bound rest = some (c', rest')) :
    conjunction (bound + 1) symbols = some (.and c c', rest') := by
  rw [conjunction, h]
  simp [h']

private theorem condition_of_conjunction (h : conjunction bound symbols = some (c, rest))
    (hrest : FollowedBy conditionFollow rest) :
    condition (bound + 1) symbols = some (c, rest) := by
  rw [condition, h]
  cases rest with
  | nil => rfl
  | cons symbol rest =>
    have hsymbol : symbol ≠ .word "or" := by
      rintro rfl
      exact absurd (hrest _ rfl) (by decide)
    simp [hsymbol]

/-- A conjunction and the condition behind an `or` are read as their disjunction. -/
private theorem condition_of_or (h : conjunction bound symbols = some (c, .word "or" :: rest))
    (h' : condition bound rest = some (c', rest')) :
    condition (bound + 1) symbols = some (.or c c', rest') := by
  rw [condition, h]
  simp [h']

/-- Whatever is read as a condition is a phrase once it stands in parentheses. -/
private theorem phrase_of_condition
    (h : ∀ bound rest, 3 * symbols.length + 1 < bound → FollowedBy conditionFollow rest →
      condition bound (symbols ++ rest) = some (c, rest)) :
    Phrase (.leftParen :: (symbols ++ [.rightParen])) c := by
  refine ⟨by simp, fun bound rest hbound _ => ?_⟩
  rw [List.length_cons, List.length_append, List.length_singleton] at hbound
  obtain _ | bound := bound
  · omega
  · -- The parenthesis that closes the condition is what ends it.
    have hinner := h bound (.rightParen :: rest) (by omega) (followedBy_cons (by decide) rest)
    rw [List.cons_append, List.append_assoc, List.singleton_append, predicate, hinner]
    rfl

/-- A phrase is a conjunction of its own. -/
private theorem Phrase.conjunction (h : Phrase symbols c) (hbound : 3 * symbols.length < bound)
    (hrest : FollowedBy conjunctionFollow rest) :
    conjunction bound (symbols ++ rest) = some (c, rest) := by
  obtain _ | bound := bound
  · omega
  · have hread := h.2 bound rest (by omega) (hrest.mono (by simp [predicateFollow]))
    exact conjunction_of_predicate hread hrest

end Steps

section Joins

variable {ts : List Symbol} {c : Condition} (h : Phrase ts c) {tss : List (List Symbol)}
  {cs : List Condition} (hs : List.Forall₂ Phrase tss cs)

include h hs

/-- Phrases with `and` between them are read as a conjunction. -/
private theorem conjunction_intercalate {bound : Nat} {rest : List Symbol}
    (hbound : 3 * ([.word "and"].intercalate (ts :: tss)).length < bound)
    (hrest : FollowedBy conjunctionFollow rest) :
    conjunction bound ([.word "and"].intercalate (ts :: tss) ++ rest) = some (c.all cs, rest) := by
  obtain _ | bound := bound
  · omega
  induction hs generalizing ts c bound with
  | nil =>
    rw [List.intercalate_singleton] at hbound ⊢
    exact h.conjunction hbound hrest
  | cons hnext hs ih =>
    rw [List.intercalate_cons_cons] at hbound ⊢
    simp only [List.length_append, List.length_singleton] at hbound
    rw [List.append_assoc, List.append_assoc, List.singleton_append]
    -- The first phrase is followed by `and`, and at least one step is left for the others.
    have hread (rest : List Symbol) := h.2 bound (.word "and" :: rest) (by omega)
      (followedBy_cons (by decide) rest)
    obtain _ | bound := bound
    · omega
    · exact conjunction_of_and (hread _) (ih hnext bound (by omega))

/-- Phrases with `or` between them are read as a disjunction. -/
private theorem condition_intercalate {bound : Nat} {rest : List Symbol}
    (hbound : 3 * ([.word "or"].intercalate (ts :: tss)).length + 1 < bound)
    (hrest : FollowedBy conditionFollow rest) :
    condition bound ([.word "or"].intercalate (ts :: tss) ++ rest) = some (c.any cs, rest) := by
  obtain _ | bound := bound
  · omega
  induction hs generalizing ts c bound with
  | nil =>
    rw [List.intercalate_singleton] at hbound ⊢
    have hread : conjunction bound (ts ++ rest) = some (c, rest) :=
      h.conjunction (by omega) (hrest.mono (by simp [conjunctionFollow]))
    exact condition_of_conjunction hread hrest
  | cons hnext hs ih =>
    rw [List.intercalate_cons_cons] at hbound ⊢
    simp only [List.length_append, List.length_singleton] at hbound
    rw [List.append_assoc, List.append_assoc, List.singleton_append]
    -- A single phrase is a conjunction, and this one is followed by `or`.
    have hread (rest : List Symbol) :
        conjunction bound (ts ++ .word "or" :: rest) = some (c, .word "or" :: rest) :=
      h.conjunction (by omega) (followedBy_cons (by decide) rest)
    obtain _ | bound := bound
    · omega
    · exact condition_of_or (hread _) (ih hnext bound (by omega))

/-- Phrases with `and` between them are a phrase once they stand in parentheses. -/
theorem phrase_conjunction :
    Phrase (.leftParen :: ([.word "and"].intercalate (ts :: tss) ++ [.rightParen])) (c.all cs) := by
  refine phrase_of_condition fun bound rest hbound hrest => ?_
  obtain _ | bound := bound
  · omega
  · refine condition_of_conjunction (conjunction_intercalate h hs (by omega) ?_) hrest
    exact hrest.mono (by simp [conjunctionFollow])

/-- Phrases with `or` between them are a phrase once they stand in parentheses. -/
theorem phrase_disjunction :
    Phrase (.leftParen :: ([.word "or"].intercalate (ts :: tss) ++ [.rightParen])) (c.any cs) :=
  phrase_of_condition fun _ _ => condition_intercalate h hs

/-- Phrases with `and` between them are read as one condition, also without parentheses. -/
theorem condition?_conjunction :
    condition? ([.word "and"].intercalate (ts :: tss)) = some (c.all cs) := by
  have hread {bound : Nat} (hbound : 3 * ([.word "and"].intercalate (ts :: tss)).length < bound) :
      conjunction bound ([.word "and"].intercalate (ts :: tss)) = some (c.all cs, []) := by
    have hread := conjunction_intercalate h hs hbound (followedBy_nil conjunctionFollow)
    rwa [List.append_nil] at hread
  rw [condition?, condition_of_conjunction (hread (by omega)) (followedBy_nil conditionFollow)]
  rfl

end Joins

/-- A phrase is read as its condition. -/
theorem condition?_phrase {ts : List Symbol} {c : Condition} (h : Phrase ts c) :
    condition? ts = some c := by
  have hread := condition?_conjunction h .nil
  rwa [List.intercalate_singleton] at hread

end MetricLayer.Sql
