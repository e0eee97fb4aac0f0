import MetricLayer.Member.Scope
import MetricLayer.Proofs.Sql.Fragment

/-!
# Quoted identifiers

An identifier in quotes is read from the quote that opens it to the first quote that is not
doubled. No identifier, whatever its characters are, ends earlier or later than it should.

- `identifier?` — the identifier that a text starts with, and the text behind it;
- `identifier?_eq_some_iff` — the texts in which a given identifier is read are its quoted form with
  any text behind it that does not go on with a quote;
- `quoted_identifiers_readable` — reading after quoting, for every dialect, and that identifiers,
  qualified names and columns with the same text are the same.
-/

namespace MetricLayer.Sql

/-! ## Reading an identifier -/

/-- The characters of an identifier from within its quotes, and the text behind the closing quote.
Two quotes are one quote of the identifier. -/
def quotedBody? (q : Char) : List Char → Option (List Char × List Char)
  | [] => none
  | [c] => if c = q then some ([], []) else none
  | c :: next :: text =>
    if c ≠ q then (quotedBody? q (next :: text)).map fun (body, rest) => (c :: body, rest)
    else if next = q then (quotedBody? q text).map fun (body, rest) => (q :: body, rest)
    else some ([], next :: text)

/-- The quoted identifier that a text starts with, and the text behind it. -/
def identifier? (q : Char) : List Char → Option (String × List Char)
  | [] => none
  | c :: text =>
    if c = q then (quotedBody? q text).map fun (body, rest) => (String.ofList body, rest) else none

/-- A character other than the quote stands for itself. -/
theorem quotedBody?_cons_of_ne {q c : Char} (hc : c ≠ q) (text : List Char) :
    quotedBody? q (c :: text) =
      (quotedBody? q text).map fun (body, rest) => (c :: body, rest) := by
  cases text <;> simp [quotedBody?, hc]

/-- A quoted identifier is read up to its closing quote where no other quote follows it. -/
theorem quotedBody?_quotedTail_append {q : Char} (identifier : List Char) {rest : List Char}
    (hrest : rest.head? ≠ some q) :
    quotedBody? q (quotedTail q identifier ++ rest) = some (identifier, rest) := by
  induction identifier with
  | nil =>
    cases rest with
    | nil => simp [quotedBody?]
    | cons c rest =>
      have hc : c ≠ q := by simpa using hrest
      simp [quotedBody?, hc]
  | cons c identifier ih =>
    by_cases hc : c = q
    · simp [hc, quotedBody?, ih]
    · simp [quotedTail_cons_of_ne hc, quotedBody?_cons_of_ne hc, ih]

/-- What is read as an identifier is its quoted form, and no quote follows it. -/
theorem eq_of_quotedBody? {q : Char} {text identifier rest : List Char}
    (h : quotedBody? q text = some (identifier, rest)) :
    text = quotedTail q identifier ++ rest ∧ rest.head? ≠ some q := by
  -- A quote that stands alone ends the body, a doubled one belongs to it.
  fun_induction quotedBody? q text generalizing identifier rest with
  | case1 => cases h
  | case2 =>
    obtain ⟨rfl, rfl⟩ := h
    simp
  | case3 => cases h
  | case4 c next text hc ih =>
    obtain ⟨⟨body, rest'⟩, hbody, heq⟩ := Option.map_eq_some_iff.1 h
    obtain ⟨rfl, rfl⟩ := heq
    obtain ⟨htext, hrest⟩ := ih hbody
    exact ⟨by rw [quotedTail_cons_of_ne hc, htext, List.cons_append], hrest⟩
  | case5 c text hc ih =>
    obtain ⟨⟨body, rest'⟩, hbody, heq⟩ := Option.map_eq_some_iff.1 h
    obtain ⟨rfl, rfl⟩ := heq
    obtain ⟨htext, hrest⟩ := ih hbody
    obtain rfl := not_ne_iff.1 hc
    exact ⟨by rw [quotedTail_cons_self, htext]; rfl, hrest⟩
  | case6 c next text hc hnext =>
    obtain ⟨rfl, rfl⟩ := h
    obtain rfl := not_ne_iff.1 hc
    exact ⟨rfl, by simpa using hnext⟩

/-- The texts in which a given identifier is read. -/
theorem identifier?_eq_some_iff {q : Char} {text rest : List Char} {identifier : String} :
    identifier? q text = some (identifier, rest) ↔
      text = q :: quotedTail q identifier.toList ++ rest ∧ rest.head? ≠ some q := by
  constructor
  · intro h
    cases text with
    | nil => cases h
    | cons c text =>
      rw [identifier?] at h
      split_ifs at h with hc
      obtain ⟨⟨body, rest'⟩, hbody, heq⟩ := Option.map_eq_some_iff.1 h
      obtain ⟨rfl, rfl⟩ := heq
      obtain ⟨htext, hrest⟩ := eq_of_quotedBody? hbody
      exact ⟨by simp [hc, htext], hrest⟩
  · rintro ⟨rfl, hrest⟩
    simp [identifier?, quotedBody?_quotedTail_append _ hrest]

namespace Dialect

variable (d : Dialect)

/-- In the quotes of a dialect exactly the identifier is read, and what follows it is left. -/
theorem identifier?_quoteChar_eq_some_iff {name : String} (hname : name ≠ "*")
    {text rest : List Char} :
    identifier? d.quoteChar text = some (name, rest) ↔
      text = (d.quote name).toList ++ rest ∧ rest.head? ≠ some d.quoteChar := by
  rw [identifier?_eq_some_iff, toList_quote d hname]

/-! ## Injectivity -/

/-- Quoted identifiers with texts behind them that do not go on with a quote can be told apart. -/
theorem eq_of_quote_append {name name' : String} (hname : name ≠ "*") (hname' : name' ≠ "*")
    {rest rest' : List Char} (hrest : rest.head? ≠ some d.quoteChar)
    (hrest' : rest'.head? ≠ some d.quoteChar)
    (h : (d.quote name).toList ++ rest = (d.quote name').toList ++ rest') :
    name = name' ∧ rest = rest' := by
  have hread := (d.identifier?_quoteChar_eq_some_iff hname).2 ⟨rfl, hrest⟩
  have hread' := (d.identifier?_quoteChar_eq_some_iff hname').2 ⟨rfl, hrest'⟩
  rw [h, hread'] at hread
  simpa [eq_comm] using hread

/-- The wildcard is written without quotes, so no other identifier is written like it. -/
theorem quote_ne_wildcard {name : String} (hname : name ≠ "*") : d.quote name ≠ "*" := by
  intro h
  have hhead := congrArg (fun s : String => s.toList.head?) h
  rw [toList_quote d hname] at hhead
  cases d <;> simp [quoteChar] at hhead

/-- Different names have different quoted texts. -/
theorem quote_injective : Function.Injective d.quote := by
  intro name name' h
  by_cases hname : name = "*"
  · by_contra hne
    have hname' : name' ≠ "*" := fun h' => hne (hname.trans h'.symm)
    exact d.quote_ne_wildcard hname' (h.symm.trans (by simp [quote, hname]))
  · by_cases hname' : name' = "*"
    · exact absurd (h.trans (by simp [quote, hname'])) (d.quote_ne_wildcard hname)
    · have hhead : ([] : List Char).head? ≠ some d.quoteChar := by simp
      exact (d.eq_of_quote_append hname hname' hhead hhead (by rw [h])).1

/-- What follows the first part of a qualified name: a point and the next part, and so on. -/
def pathTail (names : List String) : List Char :=
  names.flatMap fun name => '.' :: (d.quote name).toList

theorem toList_quotePath_cons (name : String) (names : List String) :
    (d.quotePath (name :: names)).toList = (d.quote name).toList ++ d.pathTail names := by
  induction names generalizing name with
  | nil => simp [quotePath, pathTail]
  | cons next names ih =>
    simp [toList_quotePath_cons_cons, ih, pathTail]

/-- A qualified name goes on with a point, which is no quote. -/
theorem head?_pathTail_ne (names : List String) :
    (d.pathTail names).head? ≠ some d.quoteChar := by
  cases names <;> cases d <;> simp [pathTail, quoteChar]

/-- Different lists of names have different quoted paths. -/
theorem eq_of_pathTail_eq {names names' : List String} (hnames : "*" ∉ names)
    (hnames' : "*" ∉ names') (h : d.pathTail names = d.pathTail names') : names = names' := by
  -- Induction on the names: behind the point the first names are read, and the tails are left.
  induction names generalizing names' with
  | nil =>
    cases names' with
    | nil => rfl
    | cons => simp [pathTail] at h
  | cons name names ih =>
    cases names' with
    | nil => simp [pathTail] at h
    | cons name' names' =>
      rw [List.mem_cons, not_or] at hnames hnames'
      have happend : (d.quote name).toList ++ d.pathTail names =
          (d.quote name').toList ++ d.pathTail names' := by
        simpa [pathTail] using h
      obtain ⟨rfl, htail⟩ := d.eq_of_quote_append (Ne.symm hnames.1) (Ne.symm hnames'.1)
        (d.head?_pathTail_ne names) (d.head?_pathTail_ne names') happend
      rw [ih hnames.2 hnames'.2 htail]

/-- The tail of a qualified name is another one behind a point. -/
theorem pathTail_cons (name : String) (names : List String) :
    d.pathTail (name :: names) = '.' :: (d.quotePath (name :: names)).toList := by
  rw [toList_quotePath_cons, pathTail, List.flatMap_cons, List.cons_append]
  rfl

theorem quotePath_ne_empty {name : String} {names : List String} (h : "*" ∉ name :: names) :
    d.quotePath (name :: names) ≠ "" := by
  intro hempty
  have hlist := congrArg String.toList hempty
  rw [toList_quotePath_cons, toList_quote d (Ne.symm (List.ne_of_not_mem_cons h))] at hlist
  simp at hlist

/-- Qualified names with the same text are the same. -/
theorem eq_of_quotePath_eq {names names' : List String} (hnames : "*" ∉ names)
    (hnames' : "*" ∉ names') (h : d.quotePath names = d.quotePath names') : names = names' := by
  -- A point in front makes two qualified names tails of longer ones.
  match names, names' with
  | [], [] => rfl
  | [], _ :: _ => exact absurd h.symm (d.quotePath_ne_empty hnames')
  | _ :: _, [] => exact absurd h (d.quotePath_ne_empty hnames)
  | _ :: _, _ :: _ =>
    exact d.eq_of_pathTail_eq hnames hnames' (by rw [pathTail_cons, pathTail_cons, h])

end Dialect

/-- The text of a column is its qualified name. -/
theorem sql_qualified (scope : CompileScope) (source column : String) :
    (scope.qualified source column).sql = scope.dialect.quotePath [source, column] := by
  simp [CompileScope.qualified, Fragment.ofColumn, Fragment.sql, Piece.sql]

/-- An identifier cannot be left from within its quotes: where no quote follows it, exactly the
identifier is read, and nothing else is read as it. So identifiers, qualified names and columns
that are written alike are the same. The wildcard, which is written without quotes, is left out
where it could be a part among others. -/
theorem quoted_identifiers_readable (d : Dialect) :
    (∀ (name : String) (text rest : List Char), name ≠ "*" →
      (identifier? d.quoteChar text = some (name, rest) ↔
        text = (d.quote name).toList ++ rest ∧ rest.head? ≠ some d.quoteChar)) ∧
    Function.Injective d.quote ∧
    (∀ names names' : List String, "*" ∉ names → "*" ∉ names' →
      ((Token.qualified names).render d).sql = ((Token.qualified names').render d).sql →
      names = names') ∧
    ∀ scope : CompileScope, scope.dialect = d → ∀ source column source' column' : String,
      "*" ∉ [source, column] → "*" ∉ [source', column'] →
      (scope.qualified source column).sql = (scope.qualified source' column').sql →
      source = source' ∧ column = column' := by
  refine ⟨fun name text rest hname => d.identifier?_quoteChar_eq_some_iff hname,
    d.quote_injective, ?_, ?_⟩
  · intro names names' hnames hnames' h
    simp only [Token.render, Fragment.sql_ofText] at h
    exact d.eq_of_quotePath_eq hnames hnames' h
  · rintro scope rfl source column source' column' hnames hnames' h
    rw [sql_qualified, sql_qualified] at h
    simpa using scope.dialect.eq_of_quotePath_eq hnames hnames' h

private def unmodelled : CompileScope where
  repository := ⟨[], []⟩
  dialect := .databricks
  context := .null
  now := ⟨⟨2024, 1, 1⟩, .midnight⟩

/-- Identifiers that are empty, that hold points or that are made of quotes only. Of the text that
names three of them, only these three are the parts. -/
theorem quoted_identifiers_readable_of_quotes :
    identifier? '\x60' "\x60\x60\x60\x60\x60\x60.\x60\x60".toList =
        some ("\x60\x60", ".\x60\x60".toList) ∧
      (∀ names, "*" ∉ names → ((Token.qualified names).render .databricks).sql =
        "\x60\x60.\x60a.b\x60.\x60\x60\x60\x60" → names = ["", "a.b", "\x60"]) ∧
      ((Token.qualified ["\x60.\x60"]).render .databricks).sql ≠
        ((Token.qualified ["\x60", "\x60"]).render .databricks).sql ∧
      (unmodelled.qualified "a" "b.c").sql ≠ (unmodelled.qualified "a.b" "c").sql := by
  obtain ⟨hread, -, hnames, hcolumns⟩ := quoted_identifiers_readable .databricks
  refine ⟨(hread _ _ _ (by decide)).2 ⟨by decide, by decide⟩, fun names hplain h => ?_, fun h => ?_,
    fun h => ?_⟩
  · have htext : ((Token.qualified ["", "a.b", "\x60"]).render .databricks).sql =
        "\x60\x60.\x60a.b\x60.\x60\x60\x60\x60" := by decide
    exact hnames _ _ hplain (by decide) (h.trans htext.symm)
  · exact absurd (hnames _ _ (by decide) (by decide) h) (by decide)
  · exact absurd (hcolumns unmodelled rfl _ _ _ _ (by decide) (by decide) h).1 (by decide)

end MetricLayer.Sql
