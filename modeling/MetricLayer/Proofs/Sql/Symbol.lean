import MetricLayer.Proofs.Sql.Fragment

/-!
# Symbols of SQL text

SQL text as a database reads it: words, quoted names, string literals, operators, punctuation and
binding marks. The text is read character by character. What has been read so far of a symbol that
may still go on is the state of the reader, so a text can be read in parts: reading a text and then
another one is reading the two of them.

- `Lexing.step`, `Lexing.run` — the reader;
- `symbols?` — the symbols of a text, unless it ends inside quotes;
- `Fragment.symbols?` — the symbols of a fragment, each mark replaced by the value bound to it;
- `Fragment.symbols?_append_of_apart`, `Fragment.symbols?_append_of_starts`,
  `Fragment.symbols?_append_of_ends` — fragments can be read apart where no symbol reaches over the
  seam.
-/

namespace MetricLayer.Sql

/-! ## Reading characters -/

/-- A symbol of SQL text. -/
inductive Symbol
  /-- A keyword, a number or a name without quotes. -/
  | word (text : String)
  /-- A quoted name. Doubled quotes in it stand for one. -/
  | name (text : String)
  /-- A string literal. -/
  | literal (text : String)
  /-- A sequence of any other characters. -/
  | operator (text : String)
  | leftParen
  | rightParen
  | comma
  /-- A mark that no value is bound to yet. -/
  | mark
  /-- A bound value. -/
  | value (value : Json)
deriving DecidableEq, Repr

/-- Characters that separate symbols. -/
def isSpacing (c : Char) : Bool := c = ' ' || c = '\n' || c = '\t' || c = '\x0d'

/-- The symbol of a character that is one on its own. -/
def punctuation? (c : Char) : Option Symbol :=
  if c = '(' then some .leftParen
  else if c = ')' then some .rightParen
  else if c = ',' then some .comma
  else none

/-- Characters of words. -/
def isWordChar (c : Char) : Bool := c.isAlphanum || c = '_'

/-- Characters of operators: all that are nothing else. -/
def isOperatorChar (c : Char) : Bool :=
  !isSpacing c && (punctuation? c).isNone && !isQuote c && !isWordChar c && c ≠ '?'

/-- The state of the reader: what has been read of the current symbol. -/
inductive Lexing
  /-- Between symbols. -/
  | between
  | word (text : List Char)
  | operator (text : List Char)
  /-- Inside quotes. -/
  | quoted (quote : Char) (text : List Char)
  /-- After a quote that closes the quotes, unless it is doubled. -/
  | closed (quote : Char) (text : List Char)
deriving DecidableEq, Repr

namespace Lexing

/-- A text in quotes as a symbol. -/
def ofQuoted (quote : Char) (text : List Char) : Symbol :=
  if quote = '\'' then .literal (String.ofList text) else .name (String.ofList text)

/-- The symbol that ends here, if any. Quotes must have been closed. -/
def finish? : Lexing → Option (List Symbol)
  | .between => some []
  | .word text => some [.word (String.ofList text)]
  | .operator text => some [.operator (String.ofList text)]
  | .quoted _ _ => none
  | .closed quote text => some [ofQuoted quote text]

/-- A character between symbols. -/
def start (c : Char) : List Symbol × Lexing :=
  if isSpacing c then ([], .between)
  else if c = '?' then ([.mark], .between)
  else if isQuote c then ([], .quoted c [])
  else if isWordChar c then ([], .word [c])
  else
    match punctuation? c with
    | some symbol => ([symbol], .between)
    | none => ([], .operator [c])

/-- The character goes on with the current symbol, or the symbol ends before it. -/
def step : Lexing → Char → List Symbol × Lexing
  | .between, c => start c
  | .word text, c =>
    if isWordChar c then ([], .word (text ++ [c]))
    else (.word (String.ofList text) :: (start c).1, (start c).2)
  | .operator text, c =>
    -- A mark after a backslash is a question mark.
    if isOperatorChar c ∨ (c = '?' ∧ text.getLast? = some '\\') then ([], .operator (text ++ [c]))
    else (.operator (String.ofList text) :: (start c).1, (start c).2)
  | .quoted quote text, c =>
    if c = quote then ([], .closed quote text) else ([], .quoted quote (text ++ [c]))
  | .closed quote text, c =>
    if c = quote then ([], .quoted quote (text ++ [quote]))
    else (ofQuoted quote text :: (start c).1, (start c).2)

/-- The symbols that end within a text, and the state after it. -/
def run : Lexing → List Char → List Symbol × Lexing
  | s, [] => ([], s)
  | s, c :: rest =>
    let (first, s') := s.step c
    let (others, s'') := run s' rest
    (first ++ others, s'')

theorem run_cons (s : Lexing) (c : Char) (rest : List Char) :
    s.run (c :: rest) =
      ((s.step c).1 ++ ((s.step c).2.run rest).1, ((s.step c).2.run rest).2) := rfl

/-- A text after another one is read from the state that the first one leaves. -/
theorem run_append (s : Lexing) (text after : List Char) :
    s.run (text ++ after) =
      ((s.run text).1 ++ ((s.run text).2.run after).1, ((s.run text).2.run after).2) := by
  induction text generalizing s with
  | nil => simp [run]
  | cons c rest ih => simp [run_cons, ih, List.append_assoc]

end Lexing

/-- The symbols of a text, unless it ends inside quotes. -/
def symbols? (text : String) : Option (List Symbol) :=
  let (symbols, s) := Lexing.between.run text.toList
  s.finish?.map (symbols ++ ·)

/-! ## Seams -/

namespace Lexing

/-- Quotes are opened by quote characters only. -/
def Proper : Lexing → Prop
  | .quoted quote _ | .closed quote _ => isQuote quote = true
  | .between | .word _ | .operator _ => True

private theorem proper_start (c : Char) : (start c).2.Proper := by
  unfold start
  split_ifs with _ _ hquote
  · trivial
  · trivial
  · exact hquote
  · trivial
  · split <;> trivial

private theorem Proper.step {s : Lexing} (h : s.Proper) (c : Char) : (s.step c).2.Proper := by
  cases s with
  | between => exact proper_start c
  | word text | operator text =>
    rw [Lexing.step]
    split_ifs
    · trivial
    · exact proper_start c
  | quoted quote text =>
    rw [Lexing.step]
    split_ifs <;> exact h
  | closed quote text =>
    rw [Lexing.step]
    split_ifs
    · exact h
    · exact proper_start c

/-- A proper state of the lexer stays proper over every text. -/
private theorem Proper.run {s : Lexing} (h : s.Proper) (text : List Char) :
    (s.run text).2.Proper := by
  induction text generalizing s with
  | nil => exact h
  | cons c rest ih => exact ih (h.step c)

end Lexing

/-- Whether a character goes on with what has been read of the current symbol. -/
def Lexing.goesOn : Lexing → Char → Bool
  | .between, _ => false
  | .word _, c => isWordChar c
  | .operator text, c => isOperatorChar c ∨ (c = '?' ∧ text.getLast? = some '\\')
  | .quoted _ _, _ => true
  | .closed quote _, c => c = quote

/-- No symbol of the first text goes on in the second one. -/
def Apart (s t : String) : Prop :=
  ∀ c ∈ t.toList.head?, (Lexing.between.run s.toList).2.goesOn c = false

instance (s t : String) : Decidable (Apart s t) :=
  decidable_of_iff (t.toList.head?.all fun c => !(Lexing.between.run s.toList).2.goesOn c) (by
    cases h : t.toList.head? <;> simp [Apart, h])

/-- Characters that no symbol goes on with: spaces and punctuation. -/
def isSeparator (c : Char) : Bool := isSpacing c || (punctuation? c).isSome

/-- A text that no symbol reaches into. -/
def StartsApart (text : String) : Prop := text.toList.head?.any isSeparator = true

instance (text : String) : Decidable (StartsApart text) := inferInstanceAs (Decidable (_ = _))

/-- A text whose last symbol does not go on. -/
def EndsApart (text : String) : Prop := (Lexing.between.run text.toList).2 = .between

instance (text : String) : Decidable (EndsApart text) := inferInstanceAs (Decidable (_ = _))

/-- A text that starts a new symbol does so whatever follows it. -/
theorem StartsApart.append {s : String} (h : StartsApart s) (t : String) :
    StartsApart (s ++ t) := by
  obtain ⟨c, hc, hseparator⟩ := (Option.any_eq_true _ _).1 h
  refine (Option.any_eq_true _ _).2 ⟨c, ?_, hseparator⟩
  rw [String.toList_append, List.head?_append, hc]
  rfl

/-- A separator belongs to no word, name, operator or placeholder. -/
private theorem of_isSeparator {c : Char} (h : isSeparator c = true) :
    isWordChar c = false ∧ isQuote c = false ∧ isOperatorChar c = false ∧ c ≠ '?' := by
  have hc : c = ' ' ∨ c = '\n' ∨ c = '\t' ∨ c = '\x0d' ∨ c = '(' ∨ c = ')' ∨ c = ',' := by
    simp only [isSeparator, isSpacing, punctuation?] at h
    grind
  rcases hc with rfl | rfl | rfl | rfl | rfl | rfl | rfl <;> decide

/-- A space or punctuation ends the current symbol. -/
private theorem Lexing.Proper.goesOn_separator {s : Lexing} (h : s.Proper) {ends : List Symbol}
    (hends : s.finish? = some ends) {c : Char} (hc : isSeparator c = true) :
    s.goesOn c = false := by
  obtain ⟨hword, hquote, hoperator, hmark⟩ := of_isSeparator hc
  cases s with
  | between => rfl
  | word text => exact hword
  | operator text => simp [Lexing.goesOn, hoperator, hmark]
  | quoted quote text => cases hends
  | closed quote text =>
    refine decide_eq_false ?_
    rintro rfl
    rw [Proper, hquote] at h
    cases h

/-- Where the current symbol does not go on, it ends before the character. -/
private theorem Lexing.step_of_goesOn {s : Lexing} {ends : List Symbol}
    (hends : s.finish? = some ends) {c : Char} (h : s.goesOn c = false) :
    s.step c = (ends ++ (start c).1, (start c).2) := by
  cases s with
  | between =>
    obtain rfl := Option.some.inj hends
    rfl
  | word text =>
    obtain rfl := Option.some.inj hends
    have hword : isWordChar c = false := h
    simp [Lexing.step, hword]
  | operator text =>
    obtain rfl := Option.some.inj hends
    simp only [Lexing.goesOn, decide_eq_false_iff_not] at h
    simp [Lexing.step, h]
  | quoted quote text => cases hends
  | closed quote text =>
    obtain rfl := Option.some.inj hends
    have hne : c ≠ quote := of_decide_eq_false h
    simp [Lexing.step, hne]

/-- Only the first character of the second text matters. -/
theorem Apart.left {s t u : String} (h : Apart s (t ++ u)) : Apart s t := by
  intro c hc
  refine h c ?_
  rw [String.toList_append, List.head?_append, hc]
  rfl

/-- Only the last symbol of the first text matters. -/
theorem Apart.right {s t u : String} {ss : List Symbol} (hs : symbols? s = some ss)
    (hapart : Apart s t) (h : Apart (s ++ t) u) : Apart t u := by
  obtain ⟨ends, hends, -⟩ := Option.map_eq_some_iff.1 hs
  intro c hc
  have hc' := h c hc
  rw [String.toList_append, Lexing.run_append] at hc'
  cases ht : t.toList with
  | nil => rfl
  | cons first rest =>
    have hstep := Lexing.step_of_goesOn hends (hapart first (by rw [ht]; rfl))
    rw [ht, Lexing.run_cons, hstep] at hc'
    exact hc'

/-- Texts can be read apart where no symbol of the first one goes on in the second one. -/
theorem symbols?_append_of_apart {s t : String} {ss : List Symbol} (hs : symbols? s = some ss)
    (h : Apart s t) : symbols? (s ++ t) = (symbols? t).map (ss ++ ·) := by
  rw [symbols?, Option.map_eq_some_iff] at hs
  obtain ⟨ends, hends, rfl⟩ := hs
  rw [symbols?, symbols?, String.toList_append, Lexing.run_append]
  cases ht : t.toList with
  | nil =>
    have hbetween : Lexing.between.finish? = some [] := rfl
    simp [Lexing.run, hends, hbetween]
  | cons c rest =>
    -- From either state the first character leads to the same one.
    have hstep := Lexing.step_of_goesOn hends (h c (by rw [ht]; rfl))
    rw [Lexing.run_cons, Lexing.run_cons, hstep, Option.map_map]
    simp [Lexing.step, Function.comp_def]

/-- Texts can be read apart where the second one starts with a space or punctuation. -/
theorem symbols?_append_of_starts {s t : String} {ss : List Symbol} (hs : symbols? s = some ss)
    (hstarts : StartsApart t) : symbols? (s ++ t) = (symbols? t).map (ss ++ ·) := by
  obtain ⟨c, hc, hseparator⟩ := (Option.any_eq_true _ _).1 hstarts
  have hproper : (Lexing.between.run s.toList).2.Proper :=
    Lexing.Proper.run (s := .between) trivial _
  obtain ⟨ends, hends, -⟩ := Option.map_eq_some_iff.1 hs
  refine symbols?_append_of_apart hs fun c' hc' => ?_
  obtain rfl := Option.some.inj (hc.symm.trans hc')
  exact hproper.goesOn_separator hends hseparator

/-- Texts can be read apart where the first one ends with a space, punctuation or a mark. -/
theorem symbols?_append_of_ends {s : String} {ss : List Symbol} (hs : symbols? s = some ss)
    (hends : EndsApart s) (t : String) : symbols? (s ++ t) = (symbols? t).map (ss ++ ·) := by
  refine symbols?_append_of_apart hs fun c _ => ?_
  rw [hends]
  rfl

/-! ## Bound values -/

/-- Marks replaced by values in order. There must be as many values as marks. -/
def bind? : List Symbol → List Json → Option (List Symbol)
  | [], [] => some []
  | [], _ :: _ => none
  | symbol :: rest, values =>
    if symbol = .mark then
      match values with
      | [] => none
      | v :: values => (bind? rest values).map (.value v :: ·)
    else (bind? rest values).map (symbol :: ·)

private theorem bind?_mark (rest : List Symbol) (v : Json) (vs : List Json) :
    bind? (.mark :: rest) (v :: vs) = (bind? rest vs).map (.value v :: ·) := by
  rw [bind?.eq_def]
  rfl

private theorem bind?_cons {symbol : Symbol} (h : symbol ≠ .mark) (rest : List Symbol)
    (vs : List Json) : bind? (symbol :: rest) vs = (bind? rest vs).map (symbol :: ·) := by
  rw [bind?.eq_def]
  exact if_neg h

/-- Symbols without marks take no values. -/
private theorem bind?_nil {ts : List Symbol} (h : .mark ∉ ts) : bind? ts [] = some ts := by
  induction ts with
  | nil => rfl
  | cons symbol rest ih =>
    rw [List.mem_cons, not_or] at h
    rw [bind?_cons (Ne.symm h.1), ih h.2]
    rfl

/-- Each of two texts keeps the values of its own marks. -/
theorem bind?_append {ss ts : List Symbol} {vs : List Json} (h : bind? ss vs = some ts)
    (ss' : List Symbol) (ws : List Json) :
    bind? (ss ++ ss') (vs ++ ws) = (bind? ss' ws).map (ts ++ ·) := by
  induction ss generalizing vs ts with
  | nil =>
    cases vs with
    | nil =>
      obtain rfl := Option.some.inj h
      simp
    | cons v vs => cases h
  | cons symbol rest ih =>
    -- A mark takes a value of its own text, since the first text is bound with no value left.
    by_cases hmark : symbol = .mark
    · subst hmark
      cases vs with
      | nil => cases h
      | cons v vs =>
        rw [bind?_mark] at h
        obtain ⟨us, hus, rfl⟩ := Option.map_eq_some_iff.1 h
        rw [List.cons_append, List.cons_append, bind?_mark, ih hus, Option.map_map]
        rfl
    · rw [bind?_cons hmark] at h
      obtain ⟨us, hus, rfl⟩ := Option.map_eq_some_iff.1 h
      rw [List.cons_append, bind?_cons hmark, ih hus, Option.map_map]
      rfl

namespace Fragment

/-- The symbols of a fragment, each mark replaced by the value bound to it. -/
def symbols? (f : Fragment) : Option (List Symbol) := do
  bind? (← Sql.symbols? f.sql) f.bindings

/-- Fragments whose texts can be read apart can be read apart. -/
private theorem symbols?_append {f g : Fragment} {ss : List Symbol} (hf : f.symbols? = some ss)
    (h : ∀ fs, Sql.symbols? f.sql = some fs →
      Sql.symbols? (f.sql ++ g.sql) = (Sql.symbols? g.sql).map (fs ++ ·)) :
    (f ++ g).symbols? = g.symbols?.map (ss ++ ·) := by
  obtain ⟨fs, hfs, hf⟩ := Option.bind_eq_some_iff.1 hf
  rw [symbols?, sql_append, h fs hfs, symbols?]
  cases Sql.symbols? g.sql with
  | none => rfl
  | some gs => exact bind?_append hf gs g.bindings

variable {f g : Fragment} {ss ts us : List Symbol}

/-- Fragments can be read apart where no symbol of the first one goes on in the second one. -/
theorem symbols?_append_of_apart (hf : f.symbols? = some ss) (hapart : Apart f.sql g.sql) :
    (f ++ g).symbols? = g.symbols?.map (ss ++ ·) :=
  symbols?_append hf fun _ hfs => Sql.symbols?_append_of_apart hfs hapart

/-- Fragments can be read apart where the second one starts with a space or punctuation. -/
theorem symbols?_append_of_starts (hf : f.symbols? = some ss) (hstarts : StartsApart g.sql) :
    (f ++ g).symbols? = g.symbols?.map (ss ++ ·) :=
  symbols?_append hf fun _ hfs => Sql.symbols?_append_of_starts hfs hstarts

/-- Fragments can be read apart where the first one ends with a space, punctuation or a mark. -/
theorem symbols?_append_of_ends (hf : f.symbols? = some ss) (hends : EndsApart f.sql)
    (g : Fragment) : (f ++ g).symbols? = g.symbols?.map (ss ++ ·) :=
  symbols?_append hf fun _ hfs => Sql.symbols?_append_of_ends hfs hends g.sql

theorem symbols?_ofValue (v : Json) : (ofValue v).symbols? = some [.value v] := by
  rw [symbols?, sql_ofValue]
  rfl

/-- A closed expression is read as the expression. -/
theorem symbols?_sealed (f : Fragment) : f.sealed.symbols? = f.symbols? := by
  rw [symbols?, sql_sealed]
  rfl

/-- Text without marks and values has the symbols that are read from it. -/
theorem symbols?_of_bindings_eq_nil (h : Sql.symbols? f.sql = some ts) (hmarks : .mark ∉ ts)
    (hbindings : f.bindings = []) : f.symbols? = some ts := by
  rw [symbols?, h, hbindings]
  exact bind?_nil hmarks

theorem symbols?_ofText {text : String} (h : Sql.symbols? text = some ts)
    (hmarks : .mark ∉ ts) : (ofText text).symbols? = some ts :=
  symbols?_of_bindings_eq_nil (by rwa [sql_ofText]) hmarks rfl

end Fragment

/-! ### Text between fragments -/

/-- Text without marks, which no symbol reaches into or out of. -/
structure Spaced (text : String) (symbols : List Symbol) : Prop where
  read : symbols? text = some symbols
  marks : .mark ∉ symbols
  starts : StartsApart text
  ends : EndsApart text

instance (text : String) (symbols : List Symbol) : Decidable (Spaced text symbols) :=
  decidable_of_iff (symbols? text = some symbols ∧ .mark ∉ symbols ∧ StartsApart text ∧
    EndsApart text)
    ⟨fun h => ⟨h.1, h.2.1, h.2.2.1, h.2.2.2⟩, fun h => ⟨h.1, h.2, h.3, h.4⟩⟩

namespace Fragment

variable {f g : Fragment} {ss ts us : List Symbol}

/-- Text after a fragment is text around it. -/
theorem wrap_empty (f : Fragment) (after : String) : f.wrap "" after = f ++ ofText after := by
  change (⟨_, _⟩ : Fragment) = ⟨_, _⟩
  simp [ofText]

/-- Two fragments with text between them. -/
theorem symbols?_append_spaced (hf : f.symbols? = some ss) {text : String} (h : Spaced text ts)
    (hg : g.symbols? = some us) : (f ++ ofText text ++ g).symbols? = some (ss ++ (ts ++ us)) := by
  have htext : (ofText text ++ g).symbols? = some (ts ++ us) := by
    rw [symbols?_append_of_ends (symbols?_ofText h.read h.marks) (by simpa using h.ends), hg]
    rfl
  have hassoc : f ++ ofText text ++ g = f ++ (ofText text ++ g) := by
    change (⟨_, _⟩ : Fragment) = ⟨_, _⟩
    simp
  have hstarts : StartsApart (ofText text ++ g).sql := by
    rw [sql_append, sql_ofText]
    exact h.starts.append g.sql
  rw [hassoc, symbols?_append_of_starts hf hstarts, htext]
  rfl

theorem symbols?_parenthesize (hf : f.symbols? = some ss) :
    f.parenthesize.symbols? = some (.leftParen :: (ss ++ [.rightParen])) := by
  have hleft : (ofText "(").symbols? = some [.leftParen] := rfl
  have hright : (ofText ")").symbols? = some [.rightParen] := rfl
  have hfirst : (ofText "(" ++ f).symbols? = some (.leftParen :: ss) := by
    rw [symbols?_append_of_ends hleft (by decide), hf]
    rfl
  rw [parenthesize, wrap_eq, symbols?_append_of_starts hfirst (by decide), hright]
  rfl

/-- Fragments with text between any two. -/
theorem symbols?_join {separator : String} (h : Spaced separator ts) {fs : List Fragment}
    {tss : List (List Symbol)} (hfs : List.Forall₂ (fun f ss => f.symbols? = some ss) fs tss) :
    (join separator fs).symbols? = some (ts.intercalate tss) := by
  induction hfs with
  | nil => rfl
  | cons hf hrest ih =>
    cases hrest with
    | nil =>
      rw [List.intercalate_singleton]
      exact hf
    | cons hg hrest =>
      rw [List.intercalate_cons_cons, List.append_assoc]
      exact symbols?_append_spaced hf h ih

end Fragment

/-! ## Qualified names -/

/-- The symbols of a qualified name: its parts with points between them. -/
def pathSymbols : List String → List Symbol
  | [] => []
  | [part] => [.name part]
  | part :: rest => .name part :: .operator "." :: pathSymbols rest

theorem mark_notMem_pathSymbols (parts : List String) : .mark ∉ pathSymbols parts := by
  fun_induction pathSymbols parts with
  | case1 => simp
  | case2 part => simp
  | case3 part rest _ ih => simpa using ih

/-- Inside quotes a character that is not the quote stands for itself, and a doubled quote for
one, up to the quote that closes them. -/
private theorem run_quotedTail (q : Char) (text identifier : List Char) :
    (Lexing.quoted q text).run (quotedTail q identifier) =
      ([], .closed q (text ++ identifier)) := by
  induction identifier generalizing text with
  | nil => simp [Lexing.run, Lexing.step]
  | cons c rest ih =>
    by_cases hc : c = q
    · simp [Lexing.run, Lexing.step, ih, hc]
    · simp [quotedTail_cons_of_ne hc, Lexing.run, Lexing.step, ih, hc]

/-- A name in the quotes of a dialect is read up to the quote that closes it. -/
private theorem run_quote (d : Dialect) {identifier : String} (h : identifier ≠ "*") {s : Lexing}
    {ends : List Symbol} (hstart : s.step d.quoteChar = (ends, .quoted d.quoteChar [])) :
    s.run (d.quote identifier).toList = (ends, .closed d.quoteChar identifier.toList) := by
  rw [toList_quote d h, Lexing.run_cons, hstart, run_quotedTail]
  simp

private theorem run_quotePath (d : Dialect) {parts : List String} (hne : parts ≠ [])
    (h : "*" ∉ parts) {s : Lexing} {ends : List Symbol}
    (hstart : s.step d.quoteChar = (ends, .quoted d.quoteChar [])) :
    ∃ before last, s.run (d.quotePath parts).toList = (ends ++ before, .closed d.quoteChar last) ∧
      pathSymbols parts = before ++ [.name (String.ofList last)] := by
  induction parts generalizing s ends with
  | nil => exact absurd rfl hne
  | cons part rest ih =>
    rw [List.mem_cons, not_or] at h
    have hpart := run_quote d (Ne.symm h.1) hstart
    cases rest with
    | nil =>
      refine ⟨[], part.toList, ?_, by simp [pathSymbols]⟩
      simpa [Dialect.quotePath] using hpart
    | cons next rest =>
      -- The point ends the name, and the next quote ends the point.
      have hpoint : (Lexing.closed d.quoteChar part.toList).step '.' =
          ([.name part], .operator ['.']) := by
        cases d <;> simp [Lexing.step, Lexing.ofQuoted, Dialect.quoteChar, Lexing.start] <;> decide
      have hquote : (Lexing.operator ['.']).step d.quoteChar =
          ([.operator "."], .quoted d.quoteChar []) := by
        cases d <;> decide
      obtain ⟨before, last, hrun, hsymbols⟩ := ih (by simp) h.2 hquote
      refine ⟨.name part :: .operator "." :: before, last, ?_, ?_⟩
      · rw [toList_quotePath_cons_cons, Lexing.run_append, hpart, Lexing.run_cons, hpoint, hrun]
        rfl
      · rw [pathSymbols, hsymbols]
        · rfl
        · simp

/-- A qualified name is read part by part. -/
theorem symbols?_quotePath (d : Dialect) {parts : List String} (hne : parts ≠ [])
    (h : "*" ∉ parts) : symbols? (d.quotePath parts) = some (pathSymbols parts) := by
  have hstart : Lexing.between.step d.quoteChar = ([], .quoted d.quoteChar []) := by
    cases d <;> decide
  obtain ⟨before, last, hrun, hsymbols⟩ := run_quotePath d hne h hstart
  rw [symbols?, hrun, hsymbols]
  cases d <;> rfl

end MetricLayer.Sql
