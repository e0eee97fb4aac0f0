import MetricLayer.Compile.Assembly
import MetricLayer.Proofs.Filter.Expression
import MetricLayer.Proofs.Filter.Tree
import MetricLayer.Proofs.Member.Reference
import MetricLayer.Proofs.Member.Session

/-!
# Definitions of dimensions as expressions

At the model level the definition of a dimension holds the SQL of the dimensions that it refers to,
and a filter holds the SQL of its member, as they are written: there are no parentheses around them.
The module says when they are whole operands nevertheless.

- `CompileScope.spliced` — the SQL of a definition, given that of each reference;
- `CompileScope.Spells` — a definition is written like an expression with references;
- `CompileScope.StandsApart` — no word or operator goes on over the ends of a reference's SQL;
- `CompileScope.splices_whole_iff` — a definition is read as its expression with whole expressions
  in place of its references exactly where each of them binds as tightly as its place asks for, and
  the predicate of a leaf is read as the operator applied to the whole expression of its member
  exactly where this binds more tightly than comparisons do.
-/

namespace MetricLayer

open Sql (Fragment Symbol Expression BinaryOperator ScalarSemantics Apart comparisonRank)

/-! ## Seams -/

namespace Sql

namespace Fragment

variable {f g : Fragment} {ts : List Symbol}

/-- Two texts that stand apart are read one after the other. -/
theorem folded?_append (hf : f.folded? = some ts) (hapart : Apart f.sql g.sql) :
    (f ++ g).folded? = g.folded?.map (ts ++ ·) := by
  obtain ⟨ss, hss, rfl⟩ := Option.map_eq_some_iff.1 hf
  rw [folded?, folded?, symbols?_append_of_apart hss hapart, Option.map_map, Option.map_map]
  congr 1
  funext us
  simp

/-- Only the last symbol of a text matters for what follows it. -/
theorem apart_right {h : Fragment} (hf : f.folded? = some ts) (hapart : Apart f.sql g.sql)
    (happend : Apart (f ++ g).sql h.sql) : Apart g.sql h.sql := by
  obtain ⟨ss, hss, -⟩ := Option.map_eq_some_iff.1 hf
  obtain ⟨us, hus, -⟩ := Option.bind_eq_some_iff.1 hss
  rw [sql_append] at happend
  exact hapart.right hus happend

end Fragment

end Sql

/-! ## Definitions -/

namespace CompileScope

variable (scope : CompileScope) (model : String)

/-- What a part of a definition is written as, given the SQL of each reference. -/
def splicedPart (sqls : String → Fragment) : TemplatePart → Fragment
  | .column name => scope.qualified model name
  | .dimension reference => sqls reference
  | part => scope.literal part

/-- The SQL of a definition, given that of each reference. -/
def spliced (sqls : String → Fragment) (t : Template) : Fragment :=
  Fragment.concat (t.map (scope.splicedPart model sqls))

/-- The symbols of a definition, given those that stand for each reference. What stands between two
references is read on its own; the first argument is what stands before the definition. -/
def templateSymbols? (fill : String → List Symbol) : (stretch : Fragment) → Template →
    Option (List Symbol)
  | stretch, [] => stretch.folded?
  | stretch, .dimension reference :: rest => do
    return (← stretch.folded?) ++ (fill reference ++ (← templateSymbols? fill .empty rest))
  | stretch, part :: rest =>
    templateSymbols? fill (stretch ++ scope.splicedPart model (fun _ => .empty) part) rest

/-- The definition is written like the expression, whatever symbols stand for its references, and the
expression is one that text can be read as. -/
structure Spells (t : Template) (e : Expression) : Prop where
  readable : e.Readable
  tight : e.Tight
  symbols (fill : String → List Symbol) :
    scope.templateSymbols? model fill .empty t = some (e.symbols fill)

/-- No symbol goes on over the ends of the SQL of a reference. -/
def StandsApart (sqls : String → Fragment) (stretch : Fragment) (t : Template) : Prop :=
  ∀ before reference after, t = before ++ .dimension reference :: after →
    Apart (stretch ++ scope.spliced model sqls before).sql
        (sqls reference ++ scope.spliced model sqls after).sql ∧
      Apart (stretch ++ scope.spliced model sqls before ++ sqls reference).sql
        (scope.spliced model sqls after).sql

section Symbols

variable {scope model} {sqls : String → Fragment} {fill : String → List Symbol}

private theorem append_empty (f : Fragment) : f ++ Fragment.empty = f := by
  change (⟨_, _⟩ : Fragment) = ⟨_, _⟩
  simp [Fragment.empty, Fragment.ofText]

private theorem empty_append (f : Fragment) : Fragment.empty ++ f = f := rfl

private theorem append_assoc (f g h : Fragment) : f ++ g ++ h = f ++ (g ++ h) := by
  change (⟨_, _⟩ : Fragment) = ⟨_, _⟩
  simp

/-- The SQL of a definition is that of its parts, one after the other. -/
private theorem spliced_append (t u : Template) : scope.spliced model sqls (t ++ u) =
    scope.spliced model sqls t ++ scope.spliced model sqls u := by
  induction t with
  | nil => rfl
  | cons part rest ih =>
    change scope.splicedPart model sqls part ++ scope.spliced model sqls (rest ++ u) = _
    rw [ih, ← append_assoc]
    rfl

/-- After a reference the rest of a definition stands apart on its own. -/
private theorem StandsApart.rest {stretch : Fragment} {reference : String} {t : Template}
    {before after : List Symbol} (hstretch : stretch.folded? = some before)
    (hreference : (sqls reference).folded? = some after)
    (h : scope.StandsApart model sqls stretch (.dimension reference :: t)) :
    scope.StandsApart model sqls .empty t := by
  obtain ⟨hleft, hright⟩ := h [] reference t rfl
  have hnil : scope.spliced model sqls [] = .empty := rfl
  rw [hnil, append_empty] at hleft hright
  have hread : (stretch ++ sqls reference).folded? = some (before ++ after) := by
    rw [Fragment.sql_append] at hleft
    rw [Fragment.folded?_append hstretch hleft.left, hreference]
    rfl
  -- What stands before a later reference loses the stretch that has been read.
  rintro start reference' rest rfl
  obtain ⟨hstart, hend⟩ := h (.dimension reference :: start) reference' rest rfl
  have hcons : scope.spliced model sqls (.dimension reference :: start) =
      sqls reference ++ scope.spliced model sqls start := rfl
  have hcons' : scope.spliced model sqls (.dimension reference' :: rest) =
      sqls reference' ++ scope.spliced model sqls rest := rfl
  rw [spliced_append, hcons'] at hright
  rw [hcons, ← append_assoc] at hstart hend
  rw [append_assoc] at hend
  rw [empty_append]
  constructor
  · refine Fragment.apart_right hread ?_ hstart
    rw [Fragment.sql_append (scope.spliced model sqls start)] at hright
    exact hright.left
  · refine Fragment.apart_right hread ?_ hend
    rw [← append_assoc, Fragment.sql_append (scope.spliced model sqls start ++ _)] at hright
    exact hright.left

/-- Where the references stand apart, the SQL of a definition has its symbols, with those of each
reference in its place. -/
private theorem folded?_spliced {t : Template} {stretch : Fragment} {ts : List Symbol}
    (hsqls : ∀ reference, .dimension reference ∈ t → (sqls reference).folded? = some (fill reference))
    (hapart : scope.StandsApart model sqls stretch t)
    (h : scope.templateSymbols? model fill stretch t = some ts) :
    (stretch ++ scope.spliced model sqls t).folded? = some ts := by
  induction t generalizing stretch ts with
  | nil => rwa [spliced, List.map_nil, Fragment.concat, append_empty]
  | cons part rest ih =>
    have hsqls' := fun reference hmem => hsqls reference (List.mem_cons_of_mem _ hmem)
    have hcons : scope.spliced model sqls (part :: rest) =
        scope.splicedPart model sqls part ++ scope.spliced model sqls rest := rfl
    -- A part that is no reference goes on with what stands before it.
    have hliteral (hpart : ∀ reference, part ≠ .dimension reference)
        (h : scope.templateSymbols? model fill
          (stretch ++ scope.splicedPart model (fun _ => .empty) part) rest = some ts) :
        (stretch ++ scope.spliced model sqls (part :: rest)).folded? = some ts := by
      have heq : scope.splicedPart model (fun _ => .empty) part =
          scope.splicedPart model sqls part := by
        cases part with
        | dimension reference => exact absurd rfl (hpart reference)
        | _ => rfl
      rw [heq] at h
      rw [hcons, ← append_assoc]
      refine ih hsqls' ?_ h
      rintro before reference after rfl
      have hseam := hapart (part :: before) reference after rfl
      rw [append_assoc]
      exact hseam
    cases part with
    | dimension reference =>
      rw [templateSymbols?] at h
      obtain ⟨before, hbefore, h⟩ := Option.bind_eq_some_iff.1 h
      obtain ⟨after, hafter, h⟩ := Option.bind_eq_some_iff.1 h
      obtain rfl := Option.some.inj h
      have hreference := hsqls reference List.mem_cons_self
      have hrest := ih hsqls' (hapart.rest hbefore hreference) hafter
      obtain ⟨hleft, hright⟩ := hapart [] reference rest rfl
      have hnil : scope.spliced model sqls [] = .empty := rfl
      rw [hnil, append_empty] at hleft hright
      have hmiddle : Apart (sqls reference).sql (scope.spliced model sqls rest).sql := by
        rw [Fragment.sql_append] at hleft
        exact Fragment.apart_right hbefore hleft.left hright
      rw [empty_append] at hrest
      rw [hcons]
      change (stretch ++ (sqls reference ++ _)).folded? = _
      rw [Fragment.folded?_append hbefore hleft, Fragment.folded?_append hreference hmiddle, hrest]
      rfl
    | _ => exact hliteral (by simp) h

end Symbols

/-- The SQL of the member at a path. -/
def memberSql (path : String) : Result Fragment := do
  return (← scope.evaluate (← scope.repository.member path)).sql

section Evaluation

variable {scope model} {sqls : String → Fragment}

/-- The definition of a dimension is evaluated to the SQL of its references in its parts. -/
private theorem ensures_modelTemplate (owner : Member) {t : Template}
    (hsqls : ∀ reference, .dimension reference ∈ t →
      scope.memberSql (scope.qualify owner.model.name reference) = .ok (sqls reference)) :
    Ensures (· = scope.spliced owner.model.name sqls t)
      (scope.resolver.modelTemplate scope owner t) := by
  induction t with
  | nil => exact .pure rfl
  | cons part rest ih =>
    have hrest := ih fun reference hmem => hsqls reference (List.mem_cons_of_mem _ hmem)
    have happend (f : Fragment) (hf : f = scope.splicedPart owner.model.name sqls part) :=
      hrest.bind (Q := (· = scope.spliced owner.model.name sqls (part :: rest))) fun g hg =>
        .pure (congrArg₂ (· ++ ·) hf hg)
    cases part with
    | dimension reference =>
      rw [Resolver.modelTemplate]
      -- The reference is found, and its SQL is the one given for it.
      have hfound : Ensures (fun found => scope.repository.member
          (scope.qualify owner.model.name reference) = .ok found)
          (scope.resolver.dimensionReference scope owner reference) := by
        intro found h
        obtain ⟨found', hfound, h⟩ := exists_ok_of_bind h
        obtain ⟨-, h⟩ := not_and_ok_of_check h
        obtain rfl := Except.ok.inj h
        have hfind : scope.resolver.find = scope.repository.member := rfl
        rw [hfind] at hfound
        exact hfound
      refine hfound.bind fun found hfound => Ensures.check fun _ => ?_
      have hvalue : Ensures (fun c => c.sql = sqls reference) (scope.resolver.evaluate found) := by
        intro c hc
        have hsql := hsqls reference List.mem_cons_self
        rw [memberSql, hfound] at hsql
        change (scope.evaluate found >>= _) = _ at hsql
        change scope.evaluate found = .ok c at hc
        rw [hc] at hsql
        exact Except.ok.inj hsql
      refine hvalue.bind fun c hc => ?_
      exact (Ensures.pure (P := (· = sqls reference)) hc).bind happend
    | metric reference =>
      rw [Resolver.modelTemplate]
      exact (Ensures.throw _).bind happend
    | column name | sql text | value v | identifier name => exact happend _ rfl

/-- What stands for the references of an expression counts as often as they occur. -/
private theorem length_symbols (fill : String → List Symbol) (least : Nat) (e : Expression) :
    (e.symbols fill).length = (e.symbols fun _ => []).length +
      ((e.places least).flatMap fun p => fill p.1).length := by
  -- By induction on the expression. Which rank a place asks for does not bear on its text.
  induction e generalizing least with
  | atom a => simp [Expression.symbols, Expression.places]
  | reference path => simp [Expression.symbols, Expression.places]
  | paren inner ih =>
    simp only [Expression.symbols, Expression.places, List.length_cons, List.length_append, ih 0]
    omega
  | not inner ih =>
    simp only [Expression.symbols, Expression.places, List.length_cons, ih Sql.notRank]
    omega
  | binary op left right ihl ihr =>
    simp only [Expression.symbols, Expression.places, List.length_append, List.flatMap_append,
      ihl op.leftRank, ihr (op.rank + 1)]
    omega
  | test t operand ih =>
    simp only [Expression.symbols, Expression.places, List.length_append,
      ih (comparisonRank + 1)]
    omega

/-- Only what stands for its own references matters to a definition. -/
private theorem templateSymbols?_congr {fill fill' : String → List Symbol} {t : Template}
    (h : ∀ reference, .dimension reference ∈ t → fill reference = fill' reference)
    (stretch : Fragment) : scope.templateSymbols? model fill stretch t =
      scope.templateSymbols? model fill' stretch t := by
  induction t generalizing stretch with
  | nil => rfl
  | cons part rest ih =>
    have hrest := ih fun reference hmem => h reference (List.mem_cons_of_mem _ hmem)
    cases part with
    | dimension reference =>
      rw [templateSymbols?, templateSymbols?, hrest, h reference List.mem_cons_self]
    | _ => exact hrest _

/-- The references of the expression are those of the definition. -/
private theorem Spells.mem_of_places {t : Template} {e : Expression} (h : scope.Spells model t e)
    {p : String × Nat} (hp : p ∈ e.places 0) : .dimension p.1 ∈ t := by
  by_contra hnot
  -- Another symbol in its place would change nothing.
  have hsymbols : e.symbols (fun r => if r = p.1 then [.comma] else []) = e.symbols fun _ => [] := by
    refine Option.some.inj ((h.symbols _).symm.trans (.trans ?_ (h.symbols _)))
    refine templateSymbols?_congr (fun reference hmem => if_neg ?_) _
    rintro rfl
    exact hnot hmem
  have hlength := congrArg List.length hsymbols
  rw [length_symbols _ 0, Nat.add_eq_left, List.length_eq_zero_iff, List.flatMap_eq_nil_iff] at hlength
  have hnil := hlength p hp
  simp at hnil

end Evaluation

/-! ## Members in filters -/

variable {scope : CompileScope}

/-- A qualified name is a column. -/
theorem isColumn_qualified {source column : String} (hsource : source ≠ "*") (hcolumn : column ≠ "*") :
    (scope.qualified source column).IsColumn scope.dialect [source, column] :=
  ⟨by simp [qualified, Fragment.sql, Fragment.ofColumn, Sql.Piece.sql], rfl, by simp,
    by simp [Ne.symm hsource, Ne.symm hcolumn]⟩

/-- The label of a member is no wildcard, since its path has a point. -/
private theorem label_ne_wildcard (m : Member) : m.label ≠ "*" := by
  have hpoint : '.' ∈ m.path.toList := by
    cases m <;> simp [Member.path, joinPath]
  intro h
  have hmark : '_' ∈ m.label.toList := by
    rw [Member.label, labelOf, Text.replaceChar, String.toList_ofList, List.mem_flatMap]
    exact ⟨'.', hpoint, by decide⟩
  rw [h] at hmark
  exact absurd hmark (by decide)

/-- The symbols of a column at the segment level. -/
private theorem spells_column {m : Member} (hm : m.model.name ≠ "*") :
    (scope.qualified m.model.name m.label).Spells (.atom (.column [m.model.name, m.label])) := by
  rw [Fragment.Spells, Fragment.folded?, (isColumn_qualified hm (label_ne_wildcard m)).symbols?]
  rfl

/-- The predicate of a leaf at a level. -/
private theorem exists_of_condition {predicates : PredicateScope} {level : Level} {conjunct : Conjunct}
    {l : FilterLeaf} {m : Member} {sql : Fragment} (hl : conjunct.filter = .leaf l)
    (hm : scope.repository.member l.member = .ok m)
    (h : scope.condition predicates level conjunct = .ok sql) : ∃ payload expr,
      l.check = .ok payload ∧ scope.resolver.filterSql scope level m = .ok expr ∧
      predicates.leaf l.operator l.member payload expr = .ok sql := by
  rw [condition, hl, PredicateScope.predicate] at h
  obtain ⟨payload, hpayload, h⟩ := exists_ok_of_bind h
  obtain ⟨expr, hexpr, h⟩ := exists_ok_of_bind h
  rw [hm] at hexpr
  exact ⟨payload, expr, hpayload, hexpr, h⟩

/-- A definition is read as its expression with the whole expressions of the dimensions that it
refers to, exactly where each of them binds as tightly as its place asks for. -/
private theorem expression?_evaluate_iff {model : Model} {d : Dimension} {c : Compiled}
    {e : Expression} {sqls : String → Fragment} {whole : String → Expression}
    (hm : scope.repository.IsMember (.dimension model d))
    (hc : scope.evaluate (.dimension model d) = .ok c)
    (hspells : scope.Spells model.name (d.template ⟨model.name, scope.context⟩) e)
    (hsqls : ∀ reference, .dimension reference ∈ d.template ⟨model.name, scope.context⟩ →
      scope.memberSql (scope.qualify model.name reference) = .ok (sqls reference) ∧
        (sqls reference).expression? = some (whole reference))
    (hapart : scope.StandsApart model.name sqls .empty (d.template ⟨model.name, scope.context⟩)) :
    c.sql.expression? = some (e.splice whole) ↔ ∀ p ∈ e.places 0, p.2 ≤ (whole p.1).rank := by
  have hread := fun reference hmem => Fragment.expression?_eq_some_iff.1 (hsqls reference hmem).2
  have hsql : c.sql = scope.spliced model.name sqls (d.template ⟨model.name, scope.context⟩) := by
    have hcompile := compile_of_evaluate hm hc
    rw [Resolver.compile] at hcompile
    obtain ⟨sql, hsql, hown⟩ := exists_ok_of_bind hcompile
    obtain rfl := Except.ok.inj hown
    have hparts := ensures_modelTemplate (.dimension model d) fun reference hmem =>
      (hsqls reference hmem).1
    exact hparts sql hsql
  have hwritten : c.sql.Spells (e.splice whole) := by
    have hfolded := folded?_spliced (fun reference hmem => (hread reference hmem).1) hapart
      (hspells.symbols _)
    rw [empty_append] at hfolded
    rw [Fragment.Spells, hsql, hfolded, Expression.symbols_splice]
  -- The text is that of the expression, so only the ranks at its places are in question.
  rw [Fragment.expression?_eq_some_iff, and_iff_right hwritten]
  exact Expression.wellFormed_splice_iff hspells.readable hspells.tight fun p hp =>
    (hread p.1 (hspells.mem_of_places hp)).2

/-- References are whole operands of a definition, and the member of a filter is a whole operand of
its predicate, exactly where the ranks allow it.

A definition is read as its expression with the whole expression of each reference in its place
exactly where all of these bind as tightly as their places ask for. The predicate of a leaf at the
model level is read as its operator applied to the whole expression of the member exactly where this
binds more tightly than comparisons. The one at the segment level is always read as the operator
applied to the member's column, which holds in the same rows. -/
theorem splices_whole_iff {V : Type} (db : ScalarSemantics V) (scope : CompileScope) :
    (∀ (model : Model) (d : Dimension) (c : Compiled) (e : Expression) (sqls : String → Fragment)
        (whole : String → Expression),
      let t := d.template ⟨model.name, scope.context⟩
      scope.repository.IsMember (.dimension model d) →
      scope.evaluate (.dimension model d) = .ok c →
      scope.Spells model.name t e →
      (∀ reference, .dimension reference ∈ t →
        scope.memberSql (scope.qualify model.name reference) = .ok (sqls reference) ∧
          (sqls reference).expression? = some (whole reference)) →
      scope.StandsApart model.name sqls .empty t →
      (c.sql.expression? = some (e.splice whole) ↔ ∀ p ∈ e.places 0, p.2 ≤ (whole p.1).rank)) ∧
    ∀ (predicates : PredicateScope) (conjunct : Conjunct) (l : FilterLeaf) (m : Member)
        (c : Compiled) (e : Expression) (sql sql' : Fragment),
      conjunct.filter = .leaf l → scope.repository.member l.member = .ok m →
      m.model.name ≠ "*" → predicates.ReadsLeaves [l] →
      scope.evaluate m = .ok c → c.sql.expression? = some e →
      scope.condition predicates .model conjunct = .ok sql →
      scope.condition predicates .segment conjunct = .ok sql' →
      ∃ payload applied projected, l.check = .ok payload ∧
        predicates.applied l.operator e payload = some applied ∧
        predicates.applied l.operator (.atom (.column [m.model.name, m.label])) payload =
          some projected ∧
        (sql.expression? = some applied ↔ comparisonRank < e.rank) ∧
        sql'.expression? = some projected ∧
        ∀ row row', row' [m.model.name, m.label] = e.value db row →
          applied.truth db row = projected.truth db row' := by
  refine ⟨fun model d c e sqls whole hm hc hspells hsqls hapart =>
    expression?_evaluate_iff hm hc hspells hsqls hapart, ?_⟩
  intro predicates conjunct l m c e sql sql' hl hm hname hnested hc he hsql hsql'
  obtain ⟨payload, expr, hpayload, hexpr, hleaf⟩ := exists_of_condition hl hm hsql
  obtain ⟨payload', expr', hpayload', hexpr', hleaf'⟩ := exists_of_condition hl hm hsql'
  obtain rfl := Except.ok.inj (hpayload.symm.trans hpayload')
  -- The member is a dimension, since a metric has no expression at the model level.
  obtain ⟨hdimension, rfl⟩ : m.isMetric = false ∧ expr = c.sql := by
    unfold Resolver.filterSql at hexpr
    dsimp only at hexpr
    split_ifs at hexpr with hmetric
    obtain ⟨c', hc', hexpr⟩ := exists_ok_of_bind hexpr
    obtain rfl := Except.ok.inj (hc.symm.trans hc')
    exact ⟨by simpa using hmetric, (Except.ok.inj hexpr).symm⟩
  obtain rfl : expr' = scope.qualified m.model.name m.label := by
    rw [Resolver.filterSql, Resolver.segmentSql, hdimension] at hexpr'
    exact (Except.ok.inj hexpr').symm
  have htakes := FilterLeaf.takes_of_check hpayload
  have hquery : ∀ query, payload = .query query → predicates.ReadsNested query := by
    rintro query rfl
    exact hnested l List.mem_cons_self query hpayload
  have hcolumn : (scope.qualified m.model.name m.label).expression? =
      some (.atom (.column [m.model.name, m.label])) :=
    Fragment.expression?_eq_some_iff.2
      ⟨spells_column hname, Expression.wellFormed_atom (by simp [Sql.Atom.Readable])⟩
  obtain ⟨applied, happlied, hread⟩ := exists_applied_iff he htakes hquery hleaf
  obtain ⟨projected, hprojected, hread'⟩ := exists_applied_iff hcolumn htakes hquery hleaf'
  refine ⟨payload, applied, projected, hpayload, happlied, hprojected, hread,
    hread'.2 (Expression.comparisonRank_lt_atom _), fun row row' hrow => ?_⟩
  -- Both predicates say of one value what the leaf says of it.
  have htruth := leafTruth_of_applied db row e htakes happlied
  have htruth' := leafTruth_of_applied db row' _ htakes hprojected
  rw [← hrow] at htruth
  exact Except.ok.inj (htruth.symm.trans htruth')

/-! ### A sum and an alternative -/

private def tariffDimension (name : String) (t : Template) : Dimension :=
  { name, definition := some fun _ => t }

private def tariffSum : Dimension :=
  tariffDimension "total" [.column "a", .sql " + ", .column "b"]

private def tariffShifted : Dimension :=
  tariffDimension "shifted" [.dimension "total", .sql " - 1"]

/-- A model with a sum, dimensions that refer to it, and an alternative. -/
private def tariff : Model where
  name := "m"
  source := .table "t"
  dimensions := [
    { name := "id", primaryKey := true },
    tariffSum,
    tariffShifted,
    tariffDimension "doubled" [.dimension "total", .sql " * 2"],
    tariffDimension "either" [.column "a", .sql " or ", .column "b"]]

private def tariffScope : CompileScope where
  repository := ⟨[tariff], []⟩
  dialect := .ansi
  context := .null
  now := ⟨⟨2024, 1, 1⟩, .midnight⟩

private def tariffPredicates : PredicateScope := ⟨.ansi, ⟨⟨2024, 1, 1⟩, .midnight⟩, fun _ => .ok {}⟩

/-- A filter on one member. -/
private def tariffFilter (operator : Operator) (member : String) (value : Json) : Conjunct :=
  ⟨.leaf ⟨operator, member, some value⟩, [], .dimension⟩

/-- A column of the model. -/
private def tariffColumn (name : String) : Expression := .atom (.column ["m", name])

/-- The sum as an expression. -/
private def tariffTotal : Expression :=
  .binary (.calculate .add) (tariffColumn "a") (tariffColumn "b")

/-- The alternative as an expression. -/
private def tariffEither : Expression := .binary .or (tariffColumn "a") (tariffColumn "b")

/-- An expression less one. -/
private def lessOne (x : Expression) : Expression :=
  .binary (.calculate .subtract) x (.atom (.constant "1"))

/-- An expression two times. -/
private def twice (x : Expression) : Expression :=
  .binary (.calculate .multiply) x (.atom (.constant "2"))

/-- An expression compared with a value. -/
private def compared (comparison : Sql.Comparison) (x : Expression) (v : Json) : Expression :=
  .binary (.compare comparison) x (.atom (.bound v))

/-- Truth values. Nothing is calculated with them. -/
private def truthValues : ScalarSemantics Json where
  bound := some
  text := .string
  compare _ a b := a = b
  like _ _ := false
  concat a _ := a
  rows _ := []
  constant _ := none
  dotted _ _ := none
  call _ _ _ := none
  calculate _ _ _ := none
  boolean := .bool
  holds a := a = .bool true
  holds_boolean b := by cases b <;> rfl
  rows_fold _ := rfl

/-- A definition that starts with the sum is written like what is calculated from it. -/
private theorem spells_total {text : String} (calculated : Expression → Expression)
    (ts : List Symbol) (htext : (Fragment.ofText text).folded? = some ts)
    (hsymbols : ∀ x fill, (calculated x).symbols fill = x.symbols fill ++ ts)
    (hreadable : (calculated (.reference "total")).Readable)
    (htight : (calculated (.reference "total")).Tight) :
    tariffScope.Spells "m" [.dimension "total", .sql text] (calculated (.reference "total")) := by
  refine ⟨hreadable, htight, fun fill => ?_⟩
  have hnone : Fragment.empty.folded? = some [] := rfl
  simp only [templateSymbols?, hnone, hsymbols, splicedPart, literal, empty_append, htext]
  rfl

/-- The sum stands apart in front of a text that goes on with nothing of it. -/
private theorem standsApart_total {total : Fragment} {text : String}
    (htext : Apart total.sql text) :
    tariffScope.StandsApart "m" (fun _ => total) .empty [.dimension "total", .sql text] := by
  have hrest : tariffScope.spliced "m" (fun _ => total) [.sql text] = .ofText text :=
    append_empty (.ofText text)
  have hnone : (tariffScope.spliced "m" (fun _ => total) []).sql = "" :=
    Fragment.sql_ofText ""
  intro before reference after ht
  -- There is one reference only, so only the text before and after this one is to be looked at.
  cases before with
  | nil =>
    obtain ⟨-, rfl⟩ := List.cons.inj ht
    rw [hrest, empty_append, Fragment.sql_append, Fragment.sql_append, Fragment.sql_ofText, hnone,
      String.empty_append]
    exact ⟨fun _ _ => rfl, htext⟩
  | cons part rest =>
    obtain ⟨-, hrest⟩ := List.cons.inj ht
    cases rest with
    | nil => cases hrest
    | cons part' rest => simp at hrest

/-- In a product with the sum only its last term is doubled, and a test of an alternative for a truth
value only tests its last part: in a row where the first part holds, the alternative is not false, but
the predicate at the model level holds. -/
theorem splices_part :
    (∃ total doubled, tariffScope.memberSql "m.total" = .ok total ∧
      total.expression? = some tariffTotal ∧
      tariffScope.Spells "m" [.dimension "total", .sql " * 2"] (twice (.reference "total")) ∧
      tariffScope.memberSql "m.doubled" = .ok doubled ∧
      doubled.expression? =
        some (.binary (.calculate .add) (tariffColumn "a") (twice (tariffColumn "b"))) ∧
      doubled.expression? ≠ some ((twice (.reference "total")).splice fun _ => tariffTotal)) ∧
    ∃ whole sql sql' e e' row row', tariffScope.memberSql "m.either" = .ok whole ∧
      whole.expression? = some tariffEither ∧
      tariffScope.condition tariffPredicates .model (tariffFilter .equals "m.either" (.bool false)) =
        .ok sql ∧
      tariffScope.condition tariffPredicates .segment
        (tariffFilter .equals "m.either" (.bool false)) = .ok sql' ∧
      sql.expression? = some e ∧ sql'.expression? = some e' ∧
      e ≠ compared .equal tariffEither (.bool false) ∧
      row' ["m", "m___either"] = tariffEither.value truthValues row ∧
      e.truth truthValues row = .yes ∧ e'.truth truthValues row' = .no := by
  have htotal : (tariffScope.memberSql "m.total").toOption.map (·.expression?) =
      some (some tariffTotal) := by
    decide +kernel
  have hdoubled : (tariffScope.memberSql "m.doubled").toOption.map (·.expression?) =
      some (some (.binary (.calculate .add) (tariffColumn "a") (twice (tariffColumn "b")))) := by
    decide +kernel
  have heither : (tariffScope.memberSql "m.either").toOption.map (·.expression?) =
      some (some tariffEither) := by
    decide +kernel
  have hmodel : (tariffScope.condition tariffPredicates .model
      (tariffFilter .equals "m.either" (.bool false))).toOption.map (·.expression?) =
      some (some (.binary .or (tariffColumn "a")
        (compared .equal (tariffColumn "b") (.bool false)))) := by
    decide +kernel
  have hsegment : (tariffScope.condition tariffPredicates .segment
      (tariffFilter .equals "m.either" (.bool false))).toOption.map (·.expression?) =
      some (some (compared .equal (tariffColumn "m___either") (.bool false))) := by
    decide +kernel
  obtain ⟨total, htotal, hreadTotal⟩ := exists_ok_of_toOption_map htotal
  obtain ⟨doubled, hdoubled, hreadDoubled⟩ := exists_ok_of_toOption_map hdoubled
  obtain ⟨whole, heither, hreadEither⟩ := exists_ok_of_toOption_map heither
  obtain ⟨sql, hmodel, hreadModel⟩ := exists_ok_of_toOption_map hmodel
  obtain ⟨sql', hsegment, hreadSegment⟩ := exists_ok_of_toOption_map hsegment
  refine ⟨⟨total, doubled, htotal, hreadTotal, ?_, hdoubled, hreadDoubled, ?_⟩, whole, sql, sql', _, _,
    fun path => some (.bool (path = ["m", "a"])), fun _ => some (.bool true), heither, hreadEither,
    hmodel, hsegment, hreadModel, hreadSegment, by decide, ?_, ?_, ?_⟩
  · refine spells_total twice [.operator "*", .word "2"] (by decide +kernel) (fun _ _ => rfl)
      ⟨trivial, show "2" ∉ Sql.reserved by decide⟩ (by decide)
  · rw [hreadDoubled]
    decide
  · decide
  · decide
  · decide

/-- The sum less one holds the whole sum, and a test of the sum for a number is one of the whole
sum. -/
theorem splices_whole_iff_shifted :
    (∃ total shifted, tariffScope.memberSql "m.total" = .ok total ∧
      total.expression? = some tariffTotal ∧
      tariffScope.evaluate (.dimension tariff tariffShifted) = .ok shifted ∧
      shifted.sql.expression? = some (lessOne tariffTotal)) ∧
    ∃ sql sql',
      tariffScope.condition tariffPredicates .model
        (tariffFilter .greater "m.total" (.number (.int 5))) = .ok sql ∧
      tariffScope.condition tariffPredicates .segment
        (tariffFilter .greater "m.total" (.number (.int 5))) = .ok sql' ∧
      sql.expression? = some (compared .greater tariffTotal (.number (.int 5))) ∧
      sql'.expression? = some (compared .greater (tariffColumn "m___total") (.number (.int 5))) := by
  have htotal : (tariffScope.evaluate (.dimension tariff tariffSum)).toOption.map
      (fun c => (c.sql.sql, c.sql.expression?)) =
      some ("\"m\".\"a\" + \"m\".\"b\"", some tariffTotal) := by
    decide +kernel
  have hshifted : (tariffScope.evaluate (.dimension tariff tariffShifted)).toOption.map
      (fun _ => ()) = some () := by
    decide +kernel
  have hmodel : (tariffScope.condition tariffPredicates .model
      (tariffFilter .greater "m.total" (.number (.int 5)))).toOption.map (fun _ => ()) = some () := by
    decide +kernel
  have hsegment : (tariffScope.condition tariffPredicates .segment
      (tariffFilter .greater "m.total" (.number (.int 5)))).toOption.map (fun _ => ()) = some () := by
    decide +kernel
  obtain ⟨total, htotal, hread⟩ := exists_ok_of_toOption_map htotal
  obtain ⟨htext, hread⟩ := Prod.mk.inj hread
  obtain ⟨shifted, hshifted, -⟩ := exists_ok_of_toOption_map hshifted
  obtain ⟨sql, hmodel, -⟩ := exists_ok_of_toOption_map hmodel
  obtain ⟨sql', hsegment, -⟩ := exists_ok_of_toOption_map hsegment
  have hmember : tariffScope.memberSql "m.total" = .ok total.sql := by
    change (tariffScope.evaluate (.dimension tariff tariffSum) >>= fun c => .ok c.sql) = _
    rw [htotal]
    rfl
  obtain ⟨hdefinitions, hfilters⟩ := splices_whole_iff truthValues tariffScope
  have hdefinition := hdefinitions tariff tariffShifted shifted (lessOne (.reference "total"))
    (fun _ => total.sql) (fun _ => tariffTotal) ⟨"m.shifted", rfl⟩ hshifted
    (spells_total lessOne [.operator "-", .word "1"] (by decide +kernel)
      (fun _ _ => rfl) ⟨trivial, show "1" ∉ Sql.reserved by decide⟩ (by decide))
    (by
      intro reference hmem
      obtain rfl : reference = "total" := by simpa [tariffShifted, tariffDimension, Dimension.template] using hmem
      exact ⟨hmember, hread⟩)
    (standsApart_total (by rw [htext]; decide +kernel))
  obtain ⟨payload, applied, projected, hpayload, happlied, hprojected, hiff, hsegmentRead, -⟩ :=
    hfilters tariffPredicates (tariffFilter .greater "m.total" (.number (.int 5))) _
      (.dimension tariff tariffSum) total tariffTotal sql sql' rfl rfl (by decide)
      (by
        intro l hl query hquery
        obtain rfl := List.mem_singleton.1 hl
        cases hquery) htotal hread hmodel hsegment
  obtain rfl : Payload.values [.number (.int 5)] = payload := Except.ok.inj hpayload
  obtain rfl := Option.some.inj happlied
  obtain rfl := Option.some.inj hprojected
  exact ⟨⟨total.sql, shifted, hmember, hread, hshifted, hdefinition.2 (by decide)⟩, sql, sql', hmodel,
    hsegment, hiff.2 (by decide), hsegmentRead⟩

end CompileScope

end MetricLayer
