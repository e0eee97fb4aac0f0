import MetricLayer.Compile.Basic
import MetricLayer.Proofs.Result
import MetricLayer.Proofs.Sql.Alignment
import Mathlib.Data.List.Range

/-!
# Placeholders of compiled queries

What it means for a question mark to be a binding mark, position by position: it stands outside of
quotes and not behind a backslash. The scan that counts marks and spells them is compared with this
description:

- `quotesAfter`, `IsMark`, `IsEscape` — the quotes open after some characters, binding marks, and
  backslashes that escape a question mark;
- `spelled` — what is written for the character at a position: `$` and a number for a mark, nothing
  for a backslash that escapes, and otherwise the character itself;
- `toList_apply_numbered`, `markPositions_eq_marks` — the scan spells every position so, and finds
  the marks where they are;
- `map_spelled_marks` — the marks are spelled by the numbers from one on;
- `CompileScope.compile_placeholders_in_order` — a compiled query has the placeholders `$1` to `$n`
  in order, one for each binding.
-/

namespace MetricLayer

namespace Sql

/-! ## Positions -/

/-- The quotes that are open after one more character: a quote character opens them, and only the
same one closes them. -/
def toggleQuotes (quotes : Option Char) (c : Char) : Option Char :=
  match quotes with
  | some q => if c = q then none else some q
  | none => if isQuote c then some c else none

/-- The quotes that are open after some characters. -/
def quotesAfter (before : List Char) : Option Char := before.foldl toggleQuotes none

/-- A binding mark stands at the position: a question mark outside of quotes that does not follow a
backslash. -/
def IsMark (cs : List Char) (i : Nat) : Prop :=
  cs[i]? = some '?' ∧ quotesAfter (cs.take i) = none ∧ (cs.take i).getLast? ≠ some '\\'

/-- A backslash outside of quotes stands at the position, and a question mark follows it. -/
def IsEscape (cs : List Char) (i : Nat) : Prop :=
  cs[i]? = some '\\' ∧ cs[i + 1]? = some '?' ∧ quotesAfter (cs.take i) = none

instance (cs : List Char) (i : Nat) : Decidable (IsMark cs i) :=
  inferInstanceAs (Decidable (_ ∧ _ ∧ _))

instance (cs : List Char) (i : Nat) : Decidable (IsEscape cs i) :=
  inferInstanceAs (Decidable (_ ∧ _ ∧ _))

/-- The positions of the binding marks. -/
def marks (cs : List Char) : List Nat := (List.range cs.length).filter fun i => IsMark cs i

/-- How many marks there are up to a position. -/
def ordinal (cs : List Char) (i : Nat) : Nat := (List.range (i + 1)).countP fun j => IsMark cs j

/-- The placeholder with the given number. -/
def numberedPlaceholder (n : Nat) : List Char := '$' :: Nat.toDigits 10 n

/-- What is written for the character at a position. -/
def spelled (cs : List Char) (i : Nat) : List Char :=
  if IsMark cs i then numberedPlaceholder (ordinal cs i)
  else if IsEscape cs i then []
  else cs[i]?.toList

/-- Quotes are opened by quote characters only. -/
private theorem isQuote_of_quotesAfter {before : List Char} {q : Char}
    (h : quotesAfter before = some q) : isQuote q = true := by
  induction before using List.reverseRecOn with
  | nil => cases h
  | append_singleton before c ih =>
    rw [quotesAfter, List.foldl_append] at h
    change toggleQuotes (quotesAfter before) c = some q at h
    cases hbefore : quotesAfter before with
    | some p =>
      rw [hbefore, toggleQuotes] at h
      split_ifs at h
      exact ih (hbefore.trans h)
    | none =>
      rw [hbefore, toggleQuotes] at h
      split_ifs at h with hc
      exact Option.some.inj h ▸ hc

/-- One more character opens or closes quotes, or leaves them as they are. -/
theorem quotesAfter_concat (before : List Char) (c : Char) :
    quotesAfter (before ++ [c]) = toggleQuotes (quotesAfter before) c := by
  rw [quotesAfter, List.foldl_append]
  rfl

/-! ## The scan, position by position -/

/-- Lexemes of the text `rest` that spell each of its positions, in the text that has `before` in
front, and find its marks where they are. -/
private structure Agrees (before rest : List Char) (ls : List Lexeme) : Prop where
  spelling : numbered ((List.range before.length).countP (fun i => IsMark (before ++ rest) i) + 1) ls =
    (List.range' before.length rest.length).flatMap (spelled (before ++ rest))
  offsets : markOffsets before.length ls =
    (List.range' before.length rest.length).filter fun i => IsMark (before ++ rest) i

section Steps

variable {before rest : List Char} {c : Char} {ls : List Lexeme}

/-- Whether a character is a mark depends on what stands before it. -/
private theorem isMark_append_cons : IsMark (before ++ c :: rest) before.length ↔
    c = '?' ∧ quotesAfter before = none ∧ before.getLast? ≠ some '\\' := by
  simp [IsMark]

/-- Whether a character escapes a mark depends on the next one and on the quotes before it. -/
private theorem isEscape_append_cons : IsEscape (before ++ c :: rest) before.length ↔
    c = '\\' ∧ rest.head? = some '?' ∧ quotesAfter before = none := by
  simp [IsEscape, List.getElem?_append_right, List.head?_eq_getElem?]

private theorem countP_range_succ (p : Nat → Bool) (n : Nat) :
    (List.range (n + 1)).countP p = (List.range n).countP p + if p n then 1 else 0 := by
  rw [List.range_succ, List.countP_append, List.countP_singleton]

/-- A character that is neither a mark nor escapes one stands for itself. -/
private theorem Agrees.plain (h : Agrees (before ++ [c]) rest ls)
    (hmark : ¬IsMark (before ++ c :: rest) before.length)
    (hescape : ¬IsEscape (before ++ c :: rest) before.length) :
    Agrees before (c :: rest) (.plain c :: ls) := by
  have hspelled : spelled (before ++ c :: rest) before.length = [c] := by
    simp [spelled, hmark, hescape]
  obtain ⟨hspelling, hoffsets⟩ := h
  simp only [List.append_assoc, List.singleton_append, List.length_append, List.length_singleton,
    countP_range_succ, decide_eq_false hmark] at hspelling hoffsets
  refine ⟨?_, ?_⟩
  · rw [numbered, List.length_cons, List.range'_succ, List.flatMap_cons, hspelled, ← hspelling]
    rfl
  · rw [markOffsets, List.length_cons, List.range'_succ, List.filter_cons_of_neg (by simpa), hoffsets]

/-- A mark is spelled by its number. -/
private theorem Agrees.mark (h : Agrees (before ++ ['?']) rest ls)
    (hmark : IsMark (before ++ '?' :: rest) before.length) :
    Agrees before ('?' :: rest) (.mark :: ls) := by
  have hspelled : spelled (before ++ '?' :: rest) before.length =
      numberedPlaceholder
        ((List.range before.length).countP (fun i => IsMark (before ++ '?' :: rest) i) + 1) := by
    rw [spelled, if_pos hmark, ordinal, countP_range_succ, decide_eq_true hmark]
    rfl
  obtain ⟨hspelling, hoffsets⟩ := h
  simp only [List.append_assoc, List.singleton_append, List.length_append, List.length_singleton,
    countP_range_succ, decide_eq_true hmark, if_true] at hspelling hoffsets
  refine ⟨?_, ?_⟩
  · rw [numbered, List.length_cons, List.range'_succ, List.flatMap_cons, hspelled, ← hspelling]
    rfl
  · rw [markOffsets, List.length_cons, List.range'_succ, List.filter_cons_of_pos (by simpa), hoffsets]

/-- A backslash that escapes a question mark is dropped, and the question mark is kept. -/
private theorem Agrees.escaped (h : Agrees (before ++ ['\\', '?']) rest ls)
    (hbefore : quotesAfter before = none) :
    Agrees before ('\\' :: '?' :: rest) (.escapedMark :: ls) := by
  have hcs : before ++ '\\' :: '?' :: rest = (before ++ ['\\']) ++ '?' :: rest := by simp
  have hlength : (before ++ ['\\']).length = before.length + 1 := by simp
  -- Neither position is a mark: a backslash stands at the first one and before the second one.
  have hfirst : ¬IsMark (before ++ '\\' :: '?' :: rest) before.length := by
    simp [isMark_append_cons]
  have hsecond : ¬IsMark (before ++ '\\' :: '?' :: rest) (before.length + 1) := by
    rw [hcs, ← hlength, isMark_append_cons]
    simp
  have hdropped : spelled (before ++ '\\' :: '?' :: rest) before.length = [] := by
    rw [spelled, if_neg hfirst, if_pos (isEscape_append_cons.2 ⟨rfl, rfl, hbefore⟩)]
  have hkept : spelled (before ++ '\\' :: '?' :: rest) (before.length + 1) = ['?'] := by
    have hescape : ¬IsEscape (before ++ '\\' :: '?' :: rest) (before.length + 1) := by
      rw [hcs, ← hlength, isEscape_append_cons]
      simp
    rw [spelled, if_neg hsecond, if_neg hescape, hcs, ← hlength]
    simp
  obtain ⟨hspelling, hoffsets⟩ := h
  simp only [List.append_assoc, List.cons_append, List.nil_append, List.length_append,
    List.length_cons, List.length_nil, countP_range_succ, decide_eq_false hfirst,
    decide_eq_false hsecond] at hspelling hoffsets
  refine ⟨?_, ?_⟩
  · rw [numbered, List.length_cons, List.length_cons, List.range'_succ, List.range'_succ,
      List.flatMap_cons, List.flatMap_cons, hdropped, hkept, ← hspelling]
    rfl
  · rw [markOffsets, List.length_cons, List.length_cons, List.range'_succ, List.range'_succ,
      List.filter_cons_of_neg (by simpa), List.filter_cons_of_neg (by simpa), hoffsets]

end Steps

/-- From a place where no backslash waits for a mark, the scan agrees with the positions. -/
private theorem agrees_lexemes {quotes : Option Char} {before rest : List Char}
    (hquotes : quotesAfter before = quotes)
    (hseam : quotes = none → before.getLast? = some '\\' → rest.head? ≠ some '?') :
    Agrees before rest (lexemes quotes rest) := by
  fun_induction lexemes quotes rest generalizing before with
  | case1 quotes => exact ⟨rfl, rfl⟩
  | case2 q c rest ih =>
    have hquote : isQuote q = true := isQuote_of_quotesAfter hquotes
    refine (ih ?_ ?_).plain ?_ ?_
    · rw [quotesAfter_concat, hquotes]
      rfl
    · -- The quotes are closed by a quote character, which is no backslash.
      intro hclosed hlast
      split_ifs at hclosed with hc
      obtain rfl : c = '\\' := by simpa using hlast
      rw [← hc] at hquote
      exact absurd hquote (by decide)
    · simp [isMark_append_cons, hquotes]
    · simp [isEscape_append_cons, hquotes]
  | case3 rest ih =>
    refine (ih ?_ ?_).escaped hquotes
    · -- Neither character is a quote.
      rw [quotesAfter, List.foldl_append]
      change toggleQuotes (toggleQuotes (quotesAfter before) '\\') '?' = none
      rw [hquotes]
      decide
    · simp
  | case4 rest hnot ih =>
    have hlast : before.getLast? ≠ some '\\' := fun hlast => hseam rfl hlast rfl
    refine (ih ?_ ?_).mark ?_
    · rw [quotesAfter_concat, hquotes]
      rfl
    · simp
    · exact isMark_append_cons.2 ⟨rfl, hquotes, hlast⟩
  | case5 c rest hnot hmark ih =>
    have hescape : ¬(c = '\\' ∧ rest.head? = some '?') := by
      rintro ⟨rfl, hhead⟩
      obtain ⟨rest', rfl⟩ := List.head?_eq_some_iff.1 hhead
      exact hnot rest' rfl rfl
    refine (ih ?_ ?_).plain ?_ ?_
    · rw [quotesAfter_concat, hquotes]
      rfl
    · intro _ hlast hhead
      exact hescape ⟨by simpa using hlast, hhead⟩
    · simp [isMark_append_cons, hmark]
    · exact fun h => hescape ⟨(isEscape_append_cons.1 h).1, (isEscape_append_cons.1 h).2.1⟩

/-- The scan of a whole text agrees with its positions. -/
private theorem agrees_text (text : String) : Agrees [] text.toList (lexemes none text.toList) :=
  agrees_lexemes rfl (by simp)

/-! ## Numbers -/

/-- The marks of a text are where the scanner finds them. -/
theorem markPositions_eq_marks (text : String) : markPositions text = marks text.toList := by
  rw [markPositions, marks, List.range_eq_range']
  exact (agrees_text text).offsets

/-- Spelling the marks of a text in order spells each of its positions. -/
theorem toList_apply_numbered (text : String) : (PlaceholderStyle.numbered.apply text).toList =
    (List.range text.toList.length).flatMap (spelled text.toList) := by
  rw [PlaceholderStyle.apply, String.toList_ofList, List.range_eq_range']
  exact (agrees_text text).spelling

/-- Positions that are counted as they come are numbered from one on. -/
private theorem map_countP_filter_range (p : Nat → Bool) (n : Nat) :
    ((List.range n).filter p).map (fun i => (List.range (i + 1)).countP p) =
      List.range' 1 ((List.range n).countP p) := by
  induction n with
  | zero => rfl
  | succ n ih =>
    rw [List.range_succ, List.filter_append, List.map_append, ih, List.countP_append]
    cases hn : p n with
    | true =>
      simp [hn, countP_range_succ, List.range'_concat, Nat.add_comm]
    | false => simp [hn]

/-- The marks of a text are spelled by the numbers from one on. -/
theorem map_spelled_marks (text : String) : (marks text.toList).map (spelled text.toList) =
    (List.range' 1 (markCount text)).map numberedPlaceholder := by
  have hcount : markCount text = (List.range text.toList.length).countP
      fun i => IsMark text.toList i := by
    rw [← length_markPositions, markPositions_eq_marks, marks, List.countP_eq_length_filter]
  have hspelled : ∀ i ∈ marks text.toList, spelled text.toList i =
      numberedPlaceholder (ordinal text.toList i) := by
    intro i hi
    rw [spelled, if_pos (by simpa using (List.mem_filter.1 hi).2)]
  rw [List.map_congr_left hspelled, hcount, ← map_countP_filter_range, List.map_map]
  rfl

end Sql

open Sql

/-- In numbered placeholders a text is spelled position by position: its marks are numbered from one
on, a backslash that escapes a question mark is dropped, and all else is kept. A query that compiles
for a dialect with numbered placeholders has them in order, one for each binding. -/
theorem CompileScope.compile_placeholders_in_order :
    (∀ text : String, (PlaceholderStyle.numbered.apply text).toList =
        (List.range text.toList.length).flatMap (spelled text.toList) ∧
      (marks text.toList).map (spelled text.toList) =
        (List.range' 1 (markCount text)).map numberedPlaceholder) ∧
    ∀ (scope : CompileScope) (pretty : Bool) (query : Query) (result : CompiledQuery),
      scope.dialect.placeholderStyle = .numbered → scope.compile pretty query = .ok result →
      ∃ statement, scope.statement query = .ok statement ∧
        let text := (statement.render scope.dialect ⟨pretty, 0⟩).sql.toList
        result.sql.toList = (List.range text.length).flatMap (spelled text) ∧
          (marks text).map (spelled text) =
            (List.range' 1 result.bindings.length).map numberedPlaceholder := by
  refine ⟨fun text => ⟨toList_apply_numbered text, map_spelled_marks text⟩, ?_⟩
  intro scope pretty query result hstyle h
  rw [CompileScope.compile] at h
  cases hs : scope.statement query with
  | error e => rw [hs] at h; cases h
  | ok statement =>
    rw [hs] at h
    dsimp only at h
    split_ifs at h with hcount
    obtain rfl := Except.ok.inj h
    refine ⟨statement, rfl, ?_, ?_⟩
    · rw [Dialect.placeholders, hstyle]
      exact toList_apply_numbered _
    · rw [← not_not.1 hcount]
      exact map_spelled_marks _

/-- A scope whose SQL holds a question mark in quotes and an escaped one. -/
private def questionScope : CompileScope where
  repository := ⟨[{
    name := "events"
    source := .table "events"
    dimensions := [{
      name := "id"
      primaryKey := true
      definition := some fun _ => [.sql "coalesce('?', ", .column "id", .sql " \\? 'k')"] }] }], []⟩
  dialect := .postgres
  context := .null
  now := ⟨⟨2024, 1, 1⟩, .midnight⟩

private def questionQuery : Query where
  dimensions := ["events.id"]
  filter := some (.leaf ⟨.equals, "events.id", some (.array [.string "x", .string "y"])⟩)
  limit := some 3

/-- Question marks in quotes and behind a backslash are not numbered. -/
theorem CompileScope.compile_placeholders_in_order_of_questions :
    ∃ result, questionScope.compile false questionQuery = .ok result ∧
      ∃ statement, questionScope.statement questionQuery = .ok statement ∧
        let text := (statement.render .postgres ⟨false, 0⟩).sql.toList
        result.sql.toList = (List.range text.length).flatMap (spelled text) ∧
          (marks text).map (spelled text) = [['$', '1'], ['$', '2'], ['$', '3']] := by
  have hbindings : (questionScope.compile false questionQuery).toOption.map (·.bindings) =
      some [.string "x", .string "y", Json.ofNat 3] := by decide +kernel
  obtain ⟨result, hresult, hbindings⟩ := exists_ok_of_toOption_map hbindings
  obtain ⟨statement, hstatement, hsql, hmarks⟩ :=
    CompileScope.compile_placeholders_in_order.2 questionScope false questionQuery result rfl hresult
  rw [hbindings] at hmarks
  exact ⟨result, hresult, statement, hstatement, hsql, hmarks⟩

end MetricLayer
