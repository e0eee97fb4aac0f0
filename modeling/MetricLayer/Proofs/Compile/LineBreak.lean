import MetricLayer.Proofs.Compile.Placeholder
import MetricLayer.Proofs.Sql.Statement

/-!
# Line breaks in statements

A statement on one line and the same statement over several lines differ in white space alone, and
where white space keeps two tokens apart on one line, it keeps them apart over several lines. Over
several lines white space also stands inside the parentheses around a nested statement.

- `Token.spaced` — the tokens that are not white space, and where white space stands before them;
- `Relaid` — two lists of tokens that differ in line breaks alone;
- `Statement.relaid` — the two layouts of a statement do so, to every depth of nesting;
- `Scan` — what a scan from left to right knows of a text, which line breaks do not change;
- `CompileScope.compile_pretty_bindings` — a query compiles over several lines exactly where it
  compiles on one line, with the same bindings.
-/

namespace MetricLayer

namespace Sql

variable {ts ts' us us' : List Token}

/-! ## Tokens apart from white space -/

/-- The tokens that are not white space, each with whether white space stands before it. The flag
says whether white space stands before the list. -/
def Token.spaced : (before : Bool) → List Token → List (Bool × Token)
  | _, [] => []
  | before, t :: rest =>
    if t.isSpacing then spaced true rest else (before, t) :: spaced false rest

/-- The second list of tokens has line breaks where the first one, which stands on one line, has
spaces. It may have further ones after opening and before closing parentheses. -/
inductive Relaid : List Token → List Token → Prop
  | nil : Relaid [] []
  | cons (t : Token) {ts us : List Token} : Relaid ts us → Relaid (t :: ts) (t :: us)
  | lineBreak (l : Layout) {ts us : List Token} : Relaid ts us →
      Relaid (.space :: ts) (l.lineBreak ++ us)
  | opened (l : Layout) {ts us : List Token} : Relaid ts us →
      Relaid (.leftParen :: ts) (.leftParen :: (l.lineBreak ++ us))
  | closed (l : Layout) {ts us : List Token} : Relaid ts us →
      Relaid (.rightParen :: ts) (l.lineBreak ++ .rightParen :: us)

namespace Relaid

/-- Tokens without line breaks are laid out as they are. -/
theorem refl (ts : List Token) : Relaid ts ts := by
  induction ts with
  | nil => exact .nil
  | cons t rest ih => exact .cons t ih

/-- Tokens are laid out one part after the other. -/
theorem append (h : Relaid ts us) (h' : Relaid ts' us') : Relaid (ts ++ ts') (us ++ us') := by
  induction h with
  | nil => exact h'
  | cons t _ ih => exact .cons t ih
  | lineBreak l _ ih =>
    rw [List.append_assoc]
    exact .lineBreak l ih
  | opened l _ ih =>
    rw [List.cons_append, List.cons_append, List.append_assoc]
    exact .opened l ih
  | closed l _ ih =>
    rw [List.append_assoc]
    exact .closed l ih

end Relaid

/-! ### What line breaks leave as it is -/

/-- White space stands before what follows a line break. -/
theorem spaced_lineBreak (l : Layout) (before : Bool) (ts : List Token) :
    Token.spaced before (l.lineBreak ++ ts) = Token.spaced true ts := by
  unfold Layout.lineBreak
  split_ifs <;> rfl

/-- The first token is the second one, and white space stands before the second one where it stands
before the first. -/
def KeptApart (p q : Bool × Token) : Prop := q.2 = p.2 ∧ (p.1 = true → q.1 = true)

namespace Relaid

/-- Line breaks keep apart what spaces keep apart. -/
theorem spaced (h : Relaid ts us) {before before' : Bool}
    (hbefore : before = true → before' = true) :
    List.Forall₂ KeptApart (Token.spaced before ts) (Token.spaced before' us) := by
  induction h generalizing before before' with
  | nil => exact .nil
  | cons t _ ih =>
    rw [Token.spaced, Token.spaced]
    split_ifs
    · exact ih id
    · exact .cons ⟨rfl, hbefore⟩ (ih id)
  | lineBreak l _ ih =>
    rw [spaced_lineBreak]
    exact ih id
  | opened l _ ih =>
    -- Behind an opening parenthesis there is white space over several lines alone.
    refine .cons ⟨rfl, hbefore⟩ ?_
    rw [spaced_lineBreak]
    exact ih fun _ => rfl
  | closed l _ ih =>
    rw [spaced_lineBreak]
    exact .cons ⟨rfl, fun _ => rfl⟩ (ih id)

/-- Line breaks are white space. -/
theorem filter_not_isSpacing (h : Relaid ts us) :
    us.filter (!·.isSpacing) = ts.filter (!·.isSpacing) := by
  have hbreak (l : Layout) (us : List Token) :
      (l.lineBreak ++ us).filter (!·.isSpacing) = us.filter (!·.isSpacing) := by
    unfold Layout.lineBreak
    split_ifs <;> rfl
  induction h with
  | nil => rfl
  | cons t _ ih => rw [List.filter_cons, List.filter_cons, ih]
  | lineBreak l _ ih =>
    rw [hbreak, ih]
    rfl
  | opened l _ ih =>
    rw [List.filter_cons, List.filter_cons, hbreak, ih]
  | closed l _ ih =>
    rw [hbreak, List.filter_cons, List.filter_cons, ih]

/-- Line breaks bind nothing. -/
theorem bindings_renderAll (h : Relaid ts us) (d : Dialect) :
    (Token.renderAll d us).bindings = (Token.renderAll d ts).bindings := by
  have hbreak (l : Layout) (us : List Token) :
      (Token.renderAll d (l.lineBreak ++ us)).bindings = (Token.renderAll d us).bindings := by
    unfold Layout.lineBreak
    split_ifs <;> rfl
  induction h with
  | nil => rfl
  | cons t _ ih => rw [Token.renderAll_cons, Token.renderAll_cons, Fragment.bindings_append, ih,
      Fragment.bindings_append]
  | lineBreak l _ ih =>
    rw [hbreak, ih]
    rfl
  | opened l _ ih =>
    rw [Token.renderAll_cons, Token.renderAll_cons, Fragment.bindings_append, hbreak, ih,
      Fragment.bindings_append]
  | closed l _ ih =>
    rw [hbreak, Token.renderAll_cons, Token.renderAll_cons, Fragment.bindings_append, ih,
      Fragment.bindings_append]

end Relaid

/-! ## Layouts of statements -/

section Layouts

variable (k k' : Nat)

/-- A clause may start on a line of its own. -/
theorem relaid_clauseBreak (h : Relaid ts us) :
    Relaid (Layout.clauseBreak ⟨false, k⟩ ++ ts) (Layout.clauseBreak ⟨true, k'⟩ ++ us) :=
  .lineBreak ⟨true, k'⟩ h

/-- A clause stands on its place where it stands in a statement on one line. -/
theorem relaid_clause (ts : List Token) : Relaid (clause ⟨false, k⟩ ts) (clause ⟨true, k'⟩ ts) := by
  unfold clause
  split_ifs
  · exact .nil
  · exact relaid_clauseBreak k k' (.refl ts)

/-- What is selected may stand on several lines. -/
theorem relaid_selectTokens (items : List SelectItem) :
    Relaid (selectTokens ⟨false, k⟩ items) (selectTokens ⟨true, k'⟩ items) := by
  unfold selectTokens
  induction items with
  | nil => exact .nil
  | cons item rest ih =>
    have hitem := relaid_clauseBreak (k + 1) (k' + 1) (.refl item.tokens)
    cases rest with
    | nil => exact hitem
    | cons next rest => exact (hitem.append (.refl [.comma])).append ih

mutual

/-- The two layouts of a source differ in line breaks alone. Those of a nested statement stand one
level deeper, between line breaks inside its parentheses. -/
theorem Source.relaid (k k' : Nat) :
    (s : Source) → Relaid (s.tokens ⟨false, k⟩) (s.tokens ⟨true, k'⟩)
  | .table _ _ => by
    rw [Source.tokens, Source.tokens]
    exact .refl _
  | .raw _ _ => by
    rw [Source.tokens, Source.tokens]
    exact .refl _
  | .statement inner => by
    have hinner := inner.relaid (k + 1) (k' + 1)
    have hend : Relaid (.rightParen :: Token.labelTokens inner.label)
        (Layout.innerBreak ⟨true, k'⟩ ++ .rightParen :: Token.labelTokens inner.label) :=
      .closed ⟨true, k'⟩ (.refl _)
    rw [Source.tokens, Source.tokens, List.append_assoc, List.append_assoc, List.append_assoc,
      List.append_assoc]
    exact .opened ⟨true, k' + 1⟩ (hinner.append hend)
termination_by structural s => s

/-- A source may stand on several lines. -/
theorem relaid_sourceTokens (k k' : Nat) :
    (s : Option Source) → Relaid (sourceTokens ⟨false, k⟩ s) (sourceTokens ⟨true, k'⟩ s)
  | none => .nil
  | some source => by
    have hsource := source.relaid k k'
    rw [sourceTokens, sourceTokens]
    exact relaid_clauseBreak k k' (.cons _ (.cons _ hsource))
termination_by structural s => s

/-- A join may stand on several lines. -/
theorem JoinClause.relaid (k k' : Nat) :
    (j : JoinClause) → Relaid (j.tokens ⟨false, k⟩) (j.tokens ⟨true, k'⟩)
  | ⟨_, source, _⟩ => by
    have hsource := source.relaid k k'
    rw [JoinClause.tokens, JoinClause.tokens]
    exact .cons _ (.cons _ (.cons _ (.cons _ (hsource.append (.refl _)))))
termination_by structural j => j

/-- Joins may stand on several lines. -/
theorem relaid_joinTokens (k k' : Nat) :
    (js : List JoinClause) → Relaid (joinTokens ⟨false, k⟩ js) (joinTokens ⟨true, k'⟩ js)
  | [] => .nil
  | join :: rest => by
    have hjoin := join.relaid k k'
    have hrest := relaid_joinTokens k k' rest
    rw [joinTokens, joinTokens]
    exact (relaid_clauseBreak k k' hjoin).append hrest
termination_by structural js => js

/-- The two layouts of a statement differ in line breaks alone. -/
theorem Statement.relaid (k k' : Nat) :
    (s : Statement) → Relaid (s.tokens ⟨false, k⟩) (s.tokens ⟨true, k'⟩)
  | ⟨_, _, select, source, joins, _, _, _, _, _⟩ => by
    have hsource := relaid_sourceTokens k k' source
    have hjoins := relaid_joinTokens k k' joins
    rw [Statement.tokens, Statement.tokens]
    -- The clauses stand one after the other, each on its place.
    refine .cons _ (.append (.append (.append (.append (.append (.append (.append (.refl _) ?_) ?_)
      ?_) ?_) ?_) ?_) ?_)
    · exact relaid_selectTokens k k' select
    · exact hsource
    · exact hjoins
    · exact relaid_clause k k' _
    · exact relaid_clause k k' _
    · exact relaid_clause k k' _
    · exact relaid_clause k k' _
termination_by structural s => s

end

end Layouts

/-! ## Marks -/

/-- What a scan from left to right knows of the text so far. -/
@[ext]
structure Scan where
  /-- The number of binding marks. -/
  marks : Nat
  /-- The open quotes. -/
  quotes : Option Char
  /-- The last character is a backslash outside of quotes. -/
  escaping : Bool
  isQuote_quotes : ∀ q, quotes = some q → isQuote q = true

namespace Scan

/-- The scan of no text. -/
def start : Scan := ⟨0, none, false, nofun⟩

/-- The scan after one more character. -/
def next (s : Scan) (c : Char) : Scan where
  marks := if c = '?' ∧ s.quotes = none ∧ s.escaping = false then s.marks + 1 else s.marks
  quotes := toggleQuotes s.quotes c
  escaping := c = '\\' ∧ s.quotes = none
  isQuote_quotes q hq := by
    cases hquotes : s.quotes with
    | none =>
      rw [hquotes, toggleQuotes] at hq
      split_ifs at hq with hc
      exact Option.some.inj hq ▸ hc
    | some p =>
      rw [hquotes, toggleQuotes] at hq
      split_ifs at hq
      exact s.isQuote_quotes q (hquotes.trans hq)

/-- The scan after a text. -/
def after (s : Scan) (text : String) : Scan := text.toList.foldl next s

/-- A text is scanned one part after the other. -/
theorem after_append (s : Scan) (t u : String) : s.after (t ++ u) = (s.after t).after u := by
  rw [after, String.toList_append, List.foldl_append]
  rfl

/-- The scan meets the marks that are counted. It may start after a backslash, unless this would
escape the first character. -/
theorem marks_foldl (quotes : Option Char) (text : List Char) {s : Scan}
    (hquotes : s.quotes = quotes) (hescaping : s.escaping = true → text.head? ≠ some '?') :
    (text.foldl next s).marks = s.marks + (lexemes quotes text).count .mark := by
  -- Induction along the lexemes. They look one character ahead where the scan looks one back.
  fun_induction lexemes quotes text generalizing s with
  | case1 quotes => rfl
  | case2 q c rest ih =>
    rw [List.foldl_cons, ih (by simp [next, toggleQuotes, hquotes]) (by simp [next, hquotes])]
    simp [next, hquotes]
  | case3 rest ih =>
    -- The backslash and the question mark are two steps of the scan.
    rw [List.foldl_cons, List.foldl_cons, ih (by simp [next, toggleQuotes, hquotes, isQuote])
      (by simp [next])]
    simp [next, hquotes]
  | case4 rest hnot ih =>
    have hescaped : s.escaping = false := by simpa using hescaping
    rw [List.foldl_cons, ih (by simp [next, toggleQuotes, hquotes, isQuote]) (by simp [next])]
    simp [next, hquotes, hescaped]
    omega
  | case5 c rest hnot hmark ih =>
    have hhead (hc : (s.next c).escaping = true) : rest.head? ≠ some '?' := by
      intro hrest
      obtain ⟨rest, rfl⟩ := List.head?_eq_some_iff.1 hrest
      exact hnot rest (of_decide_eq_true hc).1 rfl
    rw [List.foldl_cons, ih (by simp [next, toggleQuotes, hquotes]) hhead]
    simp [next, hmark]

/-- The marks of a text are those that a scan of it counts. -/
theorem markCount_eq (text : String) : markCount text = (start.after text).marks := by
  rw [after, marks_foldl none _ rfl fun h => (Bool.false_ne_true h).elim, markCount]
  exact (Nat.zero_add _).symm

/-- The scan that has forgotten a backslash. -/
def settled (s : Scan) : Scan := { s with escaping := false }

/-- The characters that line breaks and parentheses are made of. -/
def isSettling (c : Char) : Bool := c = ' ' || c = '\n' || c = '(' || c = ')'

/-- White space and parentheses are neither marks nor quotes. -/
theorem next_eq_settled (s : Scan) {c : Char} (hc : isSettling c = true) :
    s.next c = s.settled := by
  have hclass : c ≠ '?' ∧ c ≠ '\\' ∧ isQuote c = false := by
    simp only [isSettling, Bool.or_eq_true, decide_eq_true_eq] at hc
    rcases hc with ((rfl | rfl) | rfl) | rfl <;> decide
  obtain ⟨hmark, hslash, hquote⟩ := hclass
  have htoggle : toggleQuotes s.quotes c = s.quotes := by
    cases hquotes : s.quotes with
    | none => simp [toggleQuotes, hquote]
    | some q =>
      have hne : c ≠ q := by
        rintro rfl
        rw [s.isQuote_quotes c hquotes] at hquote
        cases hquote
      simp [toggleQuotes, hne]
  ext1 <;> simp [next, settled, hmark, hslash, htoggle]

/-- However long white space and parentheses are, the scan only forgets a backslash. -/
theorem after_eq_settled (s : Scan) {text : String} (hne : text ≠ "")
    (h : ∀ c ∈ text.toList, isSettling c = true) : s.after text = s.settled := by
  obtain ⟨c, cs, hcs⟩ := List.exists_cons_of_ne_nil (mt String.toList_eq_nil_iff.1 hne)
  rw [hcs] at h
  obtain ⟨hc, hcs'⟩ := List.forall_mem_cons.1 h
  rw [after, hcs, List.foldl_cons, s.next_eq_settled hc]
  clear hcs h hc
  induction cs with
  | nil => rfl
  | cons c cs ih =>
    obtain ⟨hc, hcs⟩ := List.forall_mem_cons.1 hcs'
    rw [List.foldl_cons, next_eq_settled _ hc]
    exact ih hcs

end Scan

/-- A line break is as good as a space. -/
theorem after_lineBreak (d : Dialect) (l : Layout) (s : Scan) (us : List Token) :
    s.after (Token.renderAll d (l.lineBreak ++ us)).sql =
      s.settled.after (Token.renderAll d us).sql := by
  -- A line break is a space on one line, and a new line with its indent over several.
  obtain ⟨n, htext⟩ : ∃ n, (Token.renderAll d l.lineBreak).sql =
      String.ofList ('\n' :: List.replicate n ' ') := by
    unfold Layout.lineBreak
    split_ifs
    · exact ⟨0, rfl⟩
    · refine ⟨2 * l.depth, ?_⟩
      simp [Token.renderAll, Fragment.concat, Token.render, Fragment.empty, String.ofList_cons]
  have hsettled : s.after (Token.renderAll d l.lineBreak).sql = s.settled := by
    rw [htext]
    refine s.after_eq_settled (by simp) ?_
    rw [String.toList_ofList]
    refine List.forall_mem_cons.2 ⟨by decide, fun c hc => ?_⟩
    rw [List.eq_of_mem_replicate hc]
    decide
  rw [Token.renderAll_append, Fragment.sql_append, Scan.after_append, hsettled]

/-- Line breaks leave the scan as it is, whatever stands before them. -/
theorem Relaid.after_eq (h : Relaid ts us) (d : Dialect) (s : Scan) :
    s.after (Token.renderAll d us).sql = s.after (Token.renderAll d ts).sql := by
  have hcons (s : Scan) (t : Token) (ts : List Token) : s.after (Token.renderAll d (t :: ts)).sql =
      (s.after (t.render d).sql).after (Token.renderAll d ts).sql := by
    rw [Token.renderAll_cons, Fragment.sql_append, Scan.after_append]
  have hsettled (s : Scan) (t : Token) (ht : t ∈ [Token.space, .leftParen, .rightParen]) :
      s.after (t.render d).sql = s.settled := by
    obtain ⟨text, htext, hne, hall⟩ : ∃ text, t.render d = .ofText text ∧ text ≠ "" ∧
        ∀ c ∈ text.toList, Scan.isSettling c = true := by
      simp only [List.mem_cons, List.not_mem_nil, or_false] at ht
      rcases ht with rfl | rfl | rfl <;>
        exact ⟨_, rfl, by decide, List.all_eq_true.1 (by decide)⟩
    rw [htext, Fragment.sql_ofText, s.after_eq_settled hne hall]
  induction h generalizing s with
  | nil => rfl
  | cons t _ ih => rw [hcons, hcons, ih]
  | lineBreak l _ ih => rw [after_lineBreak, ih, hcons, hsettled _ _ (by decide)]
  | opened l _ ih =>
    rw [hcons, after_lineBreak, ih, hcons, hsettled _ _ (by decide)]
    rfl
  | closed l _ ih =>
    -- The parenthesis forgets a backslash whether a line break stands before it or not.
    rw [after_lineBreak, hcons, ih, hcons, hsettled _ _ (by decide), hsettled _ _ (by decide)]
    rfl

/-- Line breaks neither add nor hide a mark. -/
theorem Relaid.markCount_renderAll (h : Relaid ts us) (d : Dialect) :
    (Token.renderAll d us).markCount = (Token.renderAll d ts).markCount := by
  rw [Fragment.markCount, Fragment.markCount, Scan.markCount_eq, Scan.markCount_eq,
    h.after_eq d .start]

end Sql

/-! ## Compiled queries -/

open Sql (Statement Token Dialect KeptApart)

/-- The two layouts of a statement have the same tokens apart from white space, which keeps two
tokens apart over several lines wherever it does so on one line. Both have the same bindings and as
many marks. So a query has a compiled form in one layout exactly where it has one in the other, with
the same bindings, and otherwise the same error. -/
theorem CompileScope.compile_pretty_bindings :
    (∀ (statement : Statement) (d : Dialect),
      (statement.tokens ⟨true, 0⟩).filter (!·.isSpacing) =
        (statement.tokens ⟨false, 0⟩).filter (!·.isSpacing) ∧
      List.Forall₂ KeptApart (Token.spaced false (statement.tokens ⟨false, 0⟩))
        (Token.spaced false (statement.tokens ⟨true, 0⟩)) ∧
      (statement.render d ⟨true, 0⟩).bindings = (statement.render d ⟨false, 0⟩).bindings ∧
      (statement.render d ⟨true, 0⟩).markCount = (statement.render d ⟨false, 0⟩).markCount) ∧
    ∀ (scope : CompileScope) (query : Query), (scope.compile true query).map (·.bindings) =
      (scope.compile false query).map (·.bindings) := by
  have hbindings (statement : Statement) (d : Dialect) :
      (statement.render d ⟨true, 0⟩).bindings = (statement.render d ⟨false, 0⟩).bindings :=
    (statement.relaid 0 0).bindings_renderAll d
  have hmarks (statement : Statement) (d : Dialect) :
      (statement.render d ⟨true, 0⟩).markCount = (statement.render d ⟨false, 0⟩).markCount :=
    (statement.relaid 0 0).markCount_renderAll d
  refine ⟨fun statement d => ⟨(statement.relaid 0 0).filter_not_isSpacing,
    (statement.relaid 0 0).spaced id, hbindings statement d, hmarks statement d⟩, ?_⟩
  intro scope query
  unfold compile
  cases scope.statement query with
  | error e => rfl
  | ok statement =>
    dsimp only
    rw [hmarks, hbindings]
    split_ifs <;> rfl

end MetricLayer
