import MetricLayer.Proofs.Sql.Fragment
import MetricLayer.Sql.Statement
import Mathlib.Data.Option.Basic

/-!
# Rendered statements

A relation that composition of fragments keeps is also kept by rendering: two statements of the
same shape whose expressions are related render to related fragments, in every dialect and layout.
The statements may differ in the expressions, as far as these are related, and in the numbers of
their pages.
-/

namespace MetricLayer.Sql

/-! ## Tokens -/

@[simp]
theorem Token.renderAll_cons (d : Dialect) (t : Token) (rest : List Token) :
    Token.renderAll d (t :: rest) = t.render d ++ Token.renderAll d rest := rfl

theorem Token.renderAll_append (d : Dialect) (ts us : List Token) :
    Token.renderAll d (ts ++ us) = Token.renderAll d ts ++ Token.renderAll d us := by
  induction ts with
  | nil => rfl
  | cons t rest ih =>
    rw [List.cons_append, Token.renderAll_cons, ih, Token.renderAll_cons]
    change (⟨_, _⟩ : Fragment) = ⟨_, _⟩
    simp

/-- Whether a token renders to text of the language itself or to a quoted name. -/
def Token.isPlain : Token → Bool
  | .binding _ | .fragment _ | .raw _ => false
  | _ => true

private theorem scan_spaces (n : Nat) :
    lexemes none (List.replicate n ' ') = List.replicate n (.plain ' ') ∧
      openQuote none (List.replicate n ' ') = none := by
  induction n with
  | zero => simp [lexemes, openQuote]
  | succ n ih => simp [List.replicate_succ, lexemes, openQuote, isQuote, ih]

/-- Indentation is neutral. -/
private theorem scanNeutral_spaces (n : Nat) :
    ScanNeutral (String.ofList (List.replicate n ' ')) := by
  obtain ⟨hlex, hopen⟩ := scan_spaces n
  refine ⟨by simpa using hopen, ?_, ?_⟩
  · simp [markCount, hlex, List.count_replicate]
  · simp [hlex, List.getLast?_replicate]

/-- The tokens of two lists render to related fragments. -/
def TokensRelated (R : Fragment → Fragment → Prop) (d : Dialect) (ts us : List Token) : Prop :=
  R (Token.renderAll d ts) (Token.renderAll d us)

/-- What stands before a clause is plain. -/
private theorem isPlain_clauseBreak (l : Layout) : ∀ t ∈ l.clauseBreak, t.isPlain := by
  rw [Layout.clauseBreak, Layout.lineBreak]
  split_ifs <;> simp [Token.isPlain]

/-- What stands inside the parentheses around a statement is plain. -/
private theorem isPlain_innerBreak (l : Layout) : ∀ t ∈ l.innerBreak, t.isPlain := by
  rw [Layout.innerBreak, Layout.lineBreak]
  split_ifs <;> simp [Token.isPlain]

/-- A label is plain. -/
private theorem isPlain_labelTokens (label : Option String) :
    ∀ t ∈ Token.labelTokens label, t.isPlain := by
  cases label <;> simp [Token.labelTokens, Token.isPlain]

namespace Congruence

variable {R : Fragment → Fragment → Prop} (hR : Congruence R) {d : Dialect}
  {ts ts' us us' : List Token}

include hR

private theorem render_plain {t : Token} (ht : t.isPlain) : R (t.render d) (t.render d) := by
  cases t with
  | keyword word => exact hR.text (by cases word <;> decide)
  | comma | dot | leftParen | rightParen | space | newline => exact hR.text (by decide)
  | indent level => exact hR.text (scanNeutral_spaces _)
  | identifier name => exact hR.text (scanNeutral_quote d name)
  | qualified names => exact hR.text (scanNeutral_quotePath d names)
  | binding value => simp [Token.isPlain] at ht
  | fragment f => simp [Token.isPlain] at ht
  | raw text => simp [Token.isPlain] at ht

theorem tokens_nil : TokensRelated R d [] [] := hR.empty

theorem tokens_append (h : TokensRelated R d ts ts') (h' : TokensRelated R d us us') :
    TokensRelated R d (ts ++ us) (ts' ++ us') := by
  rw [TokensRelated, Token.renderAll_append, Token.renderAll_append]
  exact hR.append h h'

theorem tokens_plain (h : ∀ t ∈ ts, t.isPlain) : TokensRelated R d ts ts := by
  induction ts with
  | nil => exact hR.tokens_nil
  | cons t rest ih =>
    have hrest := ih fun u hu => h u (List.mem_cons_of_mem _ hu)
    exact hR.append (hR.render_plain (h t List.mem_cons_self)) hrest

theorem tokens_cons {t t' : Token} (h : R (t.render d) (t'.render d))
    (hrest : TokensRelated R d ts ts') : TokensRelated R d (t :: ts) (t' :: ts') :=
  hR.append h hrest

theorem tokens_cons_plain {t : Token} (ht : t.isPlain) (hrest : TokensRelated R d ts ts') :
    TokensRelated R d (t :: ts) (t :: ts') :=
  hR.tokens_cons (hR.render_plain ht) hrest

/-- Related entries stay related with plain separators between them. -/
theorem tokens_interleave {separator : List Token} (hsep : ∀ t ∈ separator, t.isPlain)
    {entries entries' : List (List Token)} (h : List.Forall₂ (TokensRelated R d) entries entries') :
    TokensRelated R d (Token.interleave separator entries)
      (Token.interleave separator entries') := by
  induction h with
  | nil => exact hR.tokens_nil
  | cons hfirst hrest ih =>
    cases hrest with
    | nil => exact hfirst
    | cons hnext hrest =>
      exact hR.tokens_append (hR.tokens_append hfirst (hR.tokens_plain hsep)) ih

/-! ## Clauses -/

/-- Related contents stay related under the layout of a clause, if they are empty together. -/
theorem tokens_clause (l : Layout) (hempty : ts.isEmpty = ts'.isEmpty)
    (h : TokensRelated R d ts ts') : TokensRelated R d (clause l ts) (clause l ts') := by
  rw [clause, clause, hempty]
  split_ifs
  · exact hR.tokens_nil
  · exact hR.tokens_append (hR.tokens_plain (isPlain_clauseBreak l)) h

theorem tokens_listClause (l : Layout) (word : Keyword) {separator : List Token}
    (hsep : ∀ t ∈ separator, t.isPlain) {entries entries' : List (List Token)}
    (h : List.Forall₂ (TokensRelated R d) entries entries') :
    TokensRelated R d (clause l (listClause word separator entries))
      (clause l (listClause word separator entries')) := by
  cases h with
  | nil => exact hR.tokens_clause l rfl hR.tokens_nil
  | cons hfirst hrest =>
    refine hR.tokens_clause l rfl ?_
    refine hR.tokens_cons_plain rfl (hR.tokens_cons_plain rfl ?_)
    exact hR.tokens_interleave hsep (.cons hfirst hrest)

/-- Pages differ in their numbers only where the same numbers are given. -/
theorem tokens_pagination {limit limit' offset offset' : Option Nat}
    (hlimit : limit.isSome = limit'.isSome) (hoffset : offset.isSome = offset'.isSome) :
    (Token.pagination limit offset).isEmpty = (Token.pagination limit' offset').isEmpty ∧
      TokensRelated R d (Token.pagination limit offset) (Token.pagination limit' offset') := by
  have hpart (word : Keyword) (n n' : Nat) :
      TokensRelated R d [.keyword word, .space, .binding (Json.ofNat n)]
        [.keyword word, .space, .binding (Json.ofNat n')] :=
    hR.tokens_cons_plain rfl (hR.tokens_cons_plain rfl
      (hR.tokens_cons (hR.value _ _) hR.tokens_nil))
  -- Only the four cases remain in which both sides give the same numbers.
  cases limit <;> cases limit' <;> simp at hlimit <;>
    cases offset <;> cases offset' <;> simp at hoffset
  · exact ⟨rfl, hR.tokens_nil⟩
  · exact ⟨rfl, hpart _ _ _⟩
  · exact ⟨rfl, hpart _ _ _⟩
  · have hspace : ∀ t ∈ [Token.space], t.isPlain := by simp [Token.isPlain]
    exact ⟨rfl, hR.tokens_interleave hspace (.cons (hpart _ _ _) (.cons (hpart _ _ _) .nil))⟩

end Congruence

/-! ## Statements -/

/-- Two selected expressions are related and have the same label. -/
structure SelectItem.Related (R : Fragment → Fragment → Prop) (i i' : SelectItem) : Prop where
  expr : R i.expr i'.expr
  label : i.label = i'.label

/-- Two ordering expressions are related and have the same direction. -/
structure OrderItem.Related (R : Fragment → Fragment → Prop) (o o' : OrderItem) : Prop where
  expr : R o.expr o'.expr
  direction : o.direction = o'.direction

/-- Two sources render to related fragments in every layout. -/
def Source.Related (R : Fragment → Fragment → Prop) (d : Dialect) (s s' : Source) : Prop :=
  ∀ l, TokensRelated R d (s.tokens l) (s'.tokens l)

/-- Two joins render to related fragments in every layout. -/
def JoinClause.Related (R : Fragment → Fragment → Prop) (d : Dialect) (j j' : JoinClause) : Prop :=
  ∀ l, TokensRelated R d (j.tokens l) (j'.tokens l)

/-- Two statements have the same label and as many columns, and render to related fragments in
every layout. -/
structure Statement.Related (R : Fragment → Fragment → Prop) (d : Dialect) (s s' : Statement) :
    Prop where
  label : s.label = s'.label
  width : s.select.length = s'.select.length
  render (l : Layout) : R (s.render d l) (s'.render d l)

namespace Congruence

variable {R : Fragment → Fragment → Prop} (hR : Congruence R) {d : Dialect}

include hR

theorem source_table (name : String) (label : Option String) :
    (Source.table name label).Related R d (.table name label) := fun l => by
  rw [Source.tokens]
  exact hR.tokens_cons_plain rfl (hR.tokens_plain (isPlain_labelTokens label))

theorem source_raw {f f' : Fragment} (hf : R f f') (label : Option String) :
    (Source.raw f label).Related R d (.raw f' label) := fun l => by
  rw [Source.tokens, Source.tokens]
  refine hR.tokens_append ?_ (hR.tokens_plain (isPlain_labelTokens label))
  exact hR.tokens_cons_plain rfl (hR.tokens_cons hf (hR.tokens_cons_plain rfl hR.tokens_nil))

/-- A statement as a source is related as its statements are, on its own lines. -/
theorem source_statement {s s' : Statement} (h : s.Related R d s') :
    (Source.statement s).Related R d (.statement s') := fun l => by
  rw [Source.tokens, Source.tokens, h.label]
  refine hR.tokens_cons_plain rfl (hR.tokens_append (hR.tokens_append (hR.tokens_append ?_ ?_) ?_)
    (hR.tokens_cons_plain rfl (hR.tokens_plain (isPlain_labelTokens _))))
  · exact hR.tokens_plain (isPlain_innerBreak _)
  · exact h.render l.nested
  · exact hR.tokens_plain (isPlain_innerBreak _)

theorem joinClause (kind : JoinKind) {s s' : Source} (hs : s.Related R d s')
    {condition condition' : Option Fragment} (hc : Option.Rel R condition condition') :
    (JoinClause.mk kind s condition).Related R d ⟨kind, s', condition'⟩ := fun l => by
  rw [JoinClause.tokens, JoinClause.tokens]
  refine hR.tokens_cons_plain rfl (hR.tokens_cons_plain rfl (hR.tokens_cons_plain rfl
    (hR.tokens_cons_plain rfl (hR.tokens_append (hs l) ?_))))
  cases hc with
  | none => exact hR.tokens_nil
  | some hf =>
    exact hR.tokens_cons_plain rfl (hR.tokens_cons_plain rfl (hR.tokens_cons_plain rfl
      (hR.tokens_cons hf hR.tokens_nil)))

private theorem tokens_select (l : Layout) {items items' : List SelectItem}
    (h : List.Forall₂ (SelectItem.Related R) items items') :
    TokensRelated R d (selectTokens l items) (selectTokens l items') := by
  have hcomma : ∀ t ∈ [Token.comma], t.isPlain := by simp [Token.isPlain]
  refine hR.tokens_interleave hcomma (List.rel_map (fun i i' hi => ?_) h)
  rw [SelectItem.tokens, SelectItem.tokens, hi.label]
  exact hR.tokens_append (hR.tokens_plain (isPlain_clauseBreak _))
    (hR.tokens_cons hi.expr (hR.tokens_plain (isPlain_labelTokens _)))

private theorem tokens_source (l : Layout) {s s' : Option Source}
    (h : Option.Rel (Source.Related R d) s s') :
    TokensRelated R d (sourceTokens l s) (sourceTokens l s') := by
  cases h with
  | none => exact hR.tokens_nil
  | some hs =>
    exact hR.tokens_append (hR.tokens_plain (isPlain_clauseBreak l))
      (hR.tokens_cons_plain rfl (hR.tokens_cons_plain rfl (hs l)))

private theorem tokens_joins (l : Layout) {js js' : List JoinClause}
    (h : List.Forall₂ (JoinClause.Related R d) js js') :
    TokensRelated R d (joinTokens l js) (joinTokens l js') := by
  induction h with
  | nil => exact hR.tokens_nil
  | cons hj _ ih =>
    exact hR.tokens_append (hR.tokens_append (hR.tokens_plain (isPlain_clauseBreak l)) (hj l)) ih

private theorem tokens_fragments (l : Layout) (word : Keyword) {separator : List Token}
    (hsep : ∀ t ∈ separator, t.isPlain) {fs fs' : List Fragment} (h : List.Forall₂ R fs fs') :
    TokensRelated R d (clause l (listClause word separator (fs.map fun f => [.fragment f])))
      (clause l (listClause word separator (fs'.map fun f => [.fragment f]))) :=
  hR.tokens_listClause l word hsep
    (List.rel_map (fun _ _ hf => hR.tokens_cons hf hR.tokens_nil) h)

private theorem tokens_order (l : Layout) {os os' : List OrderItem}
    (h : List.Forall₂ (OrderItem.Related R) os os') :
    TokensRelated R d
      (clause l (listClause .orderBy [.comma, .space]
        (os.map fun o => [.fragment o.expr, .space, .keyword o.direction.keyword])))
      (clause l (listClause .orderBy [.comma, .space]
        (os'.map fun o => [.fragment o.expr, .space, .keyword o.direction.keyword]))) := by
  refine hR.tokens_listClause l _ (by simp [Token.isPlain]) (List.rel_map (fun o o' ho => ?_) h)
  rw [ho.direction]
  exact hR.tokens_cons ho.expr (hR.tokens_cons_plain rfl (hR.tokens_cons_plain rfl hR.tokens_nil))

/-- Statements of the same shape whose parts are related are related. -/
theorem statement {s s' : Statement} (hdistinct : s.distinct = s'.distinct)
    (hlabel : s.label = s'.label)
    (hselect : List.Forall₂ (SelectItem.Related R) s.select s'.select)
    (hsource : Option.Rel (Source.Related R d) s.source s'.source)
    (hjoins : List.Forall₂ (JoinClause.Related R d) s.joins s'.joins)
    (hfilters : List.Forall₂ R s.filters s'.filters)
    (hgroups : List.Forall₂ R s.groupBy s'.groupBy)
    (horder : List.Forall₂ (OrderItem.Related R) s.orderBy s'.orderBy)
    (hlimit : s.limit.isSome = s'.limit.isSome) (hoffset : s.offset.isSome = s'.offset.isSome) :
    s.Related R d s' := by
  refine ⟨hlabel, hselect.length_eq, fun l => ?_⟩
  obtain ⟨distinct, label, select, source, joins, filters, groupBy, orderBy, limit, offset⟩ := s
  obtain ⟨distinct', label', select', source', joins', filters', groupBy', orderBy', limit',
    offset'⟩ := s'
  obtain rfl : distinct = distinct' := hdistinct
  obtain ⟨hempty, hpage⟩ := hR.tokens_pagination (d := d) hlimit hoffset
  rw [Statement.render, Statement.render, Statement.tokens, Statement.tokens]
  -- A statement is its clauses one after the other, each related on its own.
  refine hR.tokens_cons_plain rfl (hR.tokens_append (hR.tokens_append (hR.tokens_append
    (hR.tokens_append (hR.tokens_append (hR.tokens_append (hR.tokens_append ?_ ?_) ?_) ?_) ?_) ?_)
    ?_) ?_)
  · exact hR.tokens_plain (by split_ifs <;> simp [Token.isPlain])
  · exact hR.tokens_select l hselect
  · exact hR.tokens_source l hsource
  · exact hR.tokens_joins l hjoins
  · exact hR.tokens_fragments l _ (by simp [Token.isPlain]) hfilters
  · exact hR.tokens_fragments l _ (by simp [Token.isPlain]) hgroups
  · exact hR.tokens_order l horder
  · exact hR.tokens_clause l hempty hpage

end Congruence

end MetricLayer.Sql
