import MetricLayer.Proofs.Compile.Layout
import MetricLayer.Proofs.Sql.Rows
import Mathlib.Data.Multiset.Dedup

/-!
# Merging segments

The root of a query joins the statements of its segments one after the other. From the second merge
on, the condition compares a segment with the first value that any segment before it has. What comes
out is said here in terms of keys, the values of the requested dimensions in a row:

- `IsKeyed` — a table in which the dimensions have values in every row, and no two rows the same;
- `mergedRows` — the rows of several tables side by side, one for each key that occurs;
- `CompileScope.foldl_rootJoins` — the chain of joins merges one table after the other;
- `Expansion.resultRow` — the row of a key: the key itself, and every metric with its value in the
  segment that computes it.

The root selects these rows (`CompileScope.statement_merges_segments`) where metrics of different
segments have different labels. Otherwise it reads a metric from the segment of another one
(`CompileScope.statement_mistakes_segment`).
-/

namespace MetricLayer

open Sql

/-! ## Rows with keys -/

section Keys

variable {Row K : Type} [DecidableEq K] {rows : List Row} {tuple : Row → K}

/-- At most one row has a key. -/
private theorem filter_eq_toList_find? (hnodup : (rows.map tuple).Nodup) (k : K) :
    rows.filter (fun row => tuple row = k) = (rows.find? fun row => tuple row = k).toList := by
  induction rows with
  | nil => rfl
  | cons row rest ih =>
    obtain ⟨hrow, hrest⟩ := List.nodup_cons.1 hnodup
    by_cases hk : tuple row = k
    · subst hk
      have hnone : rest.filter (fun other => tuple other = tuple row) = [] := by
        refine List.filter_eq_nil_iff.2 fun other hother => ?_
        simpa using ne_of_mem_of_not_mem (List.mem_map_of_mem hother) hrow
      simp [hnone]
    · simp [hk, ih hrest]

end Keys

/-! ## Keyed tables -/

section Tables

variable {V : Type} {dimensions : List Member}

/-- The values of dimensions in a row. -/
def tupleOf (dimensions : List Member) (row : Row V) : List (Option V) :=
  dimensions.map fun d => row d.label

/-- Two rows have one key where they have the same values of all dimensions. -/
theorem tupleOf_eq_tupleOf {row row' : Row V} :
    tupleOf dimensions row = tupleOf dimensions row' ↔
      ∀ d ∈ dimensions, row d.label = row' d.label :=
  List.map_inj_left

/-- The dimensions have values in every row of a table, and no two rows have the same. -/
structure IsKeyed (dimensions : List Member) (table : List (Row V)) : Prop where
  value : ∀ row ∈ table, ∀ d ∈ dimensions, ∃ v, row d.label = some v
  nodup : (table.map (tupleOf dimensions)).Nodup

instance [DecidableEq V] (dimensions : List Member) (table : List (Row V)) :
    Decidable (IsKeyed dimensions table) :=
  decidable_of_iff ((∀ row ∈ table, ∀ d ∈ dimensions, (row d.label).isSome) ∧
      (table.map (tupleOf dimensions)).Nodup)
    ⟨fun h => ⟨fun row hrow d hd => Option.isSome_iff_exists.1 (h.1 row hrow d hd), h.2⟩,
      fun h => ⟨fun row hrow d hd => Option.isSome_iff_exists.2 (h.value row hrow d hd), h.nodup⟩⟩

/-- A table as a segment gives it: the dimensions are its key, and it has one row where there are no
dimensions. -/
structure IsSegmentTable (dimensions : List Member) (table : List (Row V)) : Prop
    extends IsKeyed dimensions table where
  single : dimensions = [] → ∃ row, table = [row]

/-- A table of one row needs no key. -/
theorem isSegmentTable_singleton (row : Row V) : IsSegmentTable [] [row] :=
  ⟨⟨by simp, by simp⟩, fun _ => ⟨row, rfl⟩⟩

variable [DecidableEq V]

/-- The row of a table with the given values of dimensions. -/
def rowAt (dimensions : List Member) (table : List (Row V)) (key : List (Option V)) :
    Option (Row V) :=
  table.find? fun row => tupleOf dimensions row = key

/-- The row that is found for a key is a row of the table with this key. -/
theorem of_rowAt_eq_some {table : List (Row V)} {key : List (Option V)} {row : Row V}
    (h : rowAt dimensions table key = some row) : row ∈ table ∧ tupleOf dimensions row = key :=
  ⟨List.mem_of_find?_eq_some h, by simpa using List.find?_some h⟩

/-- No row is found for a key where no row has it. -/
theorem rowAt_eq_none {table : List (Row V)} {key : List (Option V)} :
    rowAt dimensions table key = none ↔ ∀ row ∈ table, tupleOf dimensions row ≠ key := by
  simp [rowAt]

/-- In a keyed table each row is found for its own key. -/
theorem IsKeyed.rowAt_tupleOf {table : List (Row V)} (h : IsKeyed dimensions table) {row : Row V}
    (hrow : row ∈ table) : rowAt dimensions table (tupleOf dimensions row) = some row :=
  find?_key_eq_some h.nodup hrow

/-- The values of dimensions that occur in a table, each once. -/
def keysOf (dimensions : List Member) (tables : String → List (Row V)) (names : List String) :
    List (List (Option V)) :=
  (names.flatMap fun name => (tables name).map (tupleOf dimensions)).dedup

/-- The keys of several tables are those of their rows. -/
theorem mem_keysOf {tables : String → List (Row V)} {names : List String}
    {key : List (Option V)} : key ∈ keysOf dimensions tables names ↔
      ∃ name ∈ names, ∃ row ∈ tables name, tupleOf dimensions row = key := by
  simp [keysOf]

/-- No key is listed twice. -/
theorem nodup_keysOf (dimensions : List Member) (tables : String → List (Row V))
    (names : List String) : (keysOf dimensions tables names).Nodup :=
  List.nodup_dedup _

/-- One more table adds the keys of its rows. -/
theorem mem_keysOf_concat {tables : String → List (Row V)} {names : List String} {name : String}
    {key : List (Option V)} : key ∈ keysOf dimensions tables (names ++ [name]) ↔
      key ∈ keysOf dimensions tables names ∨ key ∈ (tables name).map (tupleOf dimensions) := by
  simp [keysOf]

/-- Without dimensions there is one key. -/
theorem keysOf_nil {tables : String → List (Row V)} {names : List String} (hnames : names ≠ [])
    (htables : ∀ name ∈ names, ∃ row, tables name = [row]) : keysOf [] tables names = [[]] := by
  refine List.perm_singleton.1 ((List.perm_ext_iff_of_nodup (nodup_keysOf _ _ _)
    (List.nodup_singleton _)).2 fun key => ?_)
  rw [mem_keysOf, List.mem_singleton]
  constructor
  · rintro ⟨name, -, row, -, rfl⟩
    rfl
  · rintro rfl
    obtain ⟨name, hname⟩ := List.exists_mem_of_ne_nil names hnames
    obtain ⟨row, hrow⟩ := htables name hname
    exact ⟨name, hname, row, by simp [hrow], rfl⟩

/-- Without dimensions the only row of a table is found. -/
theorem rowAt_nil (row : Row V) : rowAt [] [row] [] = some row := by
  simp [rowAt, tupleOf]

/-- The rows of several tables with the given values of dimensions, side by side. -/
def mergedRow (dimensions : List Member) (tables : String → List (Row V)) (names : List String)
    (key : List (Option V)) : JoinedRow (Row V) :=
  fun name => if name ∈ names then rowAt dimensions (tables name) key else none

/-- The merged rows of several tables: one for each key that occurs in a table. -/
def mergedRows (dimensions : List Member) (tables : String → List (Row V)) (names : List String) :
    Multiset (JoinedRow (Row V)) :=
  (keysOf dimensions tables names : Multiset (List (Option V))).map
    (mergedRow dimensions tables names)

end Tables

/-! ## Full joins on a key -/

/-- A joined row with the row of one more source, or as it is where there is none. -/
def JoinedRow.extend? {Row : Type} (x : JoinedRow Row) (source : String) :
    Option Row → JoinedRow Row
  | some row => x.extend source row
  | none => x

section Joins

variable {Row K : Type} [DecidableEq K] {db : Database Row} {j : SegmentJoin} {rows : List Row}
  {tuple : Row → K}

/-- A row that meets one row of a keyed table at most stays one row. -/
private theorem padded_eq_singleton (hnodup : (rows.map tuple).Nodup) {x : JoinedRow Row} {k : K}
    (hmatch : ∀ row ∈ rows, db.joins j.join (x.extend j.child row) = .yes ↔ tuple row = k) :
    db.padded j.toOrientedJoin rows x =
      {x.extend? j.child (rows.find? fun row => tuple row = k)} := by
  have hmatching : db.matching j.toOrientedJoin rows x =
      (rows.find? fun row => tuple row = k).toList := by
    rw [Database.matching, Multiset.filter_congr hmatch, Multiset.filter_coe,
      filter_eq_toList_find? hnodup]
  rw [Database.padded, Database.matched, hmatching]
  cases rows.find? fun row => tuple row = k <;> simp [JoinedRow.extend?]

/-- A full join with rows that match by a key: every key that occurs on a side has one row. -/
theorem Database.join_full_eq (hkind : j.kind = .full) (hnodup : (rows.map tuple).Nodup)
    {keys : Multiset K} {f : K → JoinedRow Row}
    (hmatch : ∀ k ∈ keys, ∀ row ∈ rows,
      db.joins j.join ((f k).extend j.child row) = .yes ↔ tuple row = k)
    (hother : ∀ k ∉ keys, f k = fun _ => none) :
    db.join j (keys.map f) rows =
      (keys + ((rows.map tuple).filter (· ∉ keys) : List K)).map fun k =>
        (f k).extend? j.child (rows.find? fun row => tuple row = k) := by
  -- On the left, a key meets at most one row, so it is neither split nor multiplied.
  have hleft : (keys.map f).bind (db.padded j.toOrientedJoin rows) =
      keys.map fun k => (f k).extend? j.child (rows.find? fun row => tuple row = k) := by
    rw [Multiset.bind_map, ← Multiset.bind_singleton]
    exact Multiset.bind_congr fun k hk => padded_eq_singleton hnodup (hmatch k hk)
  -- A row on the right is left over where its key is new.
  have hunmatched : db.unmatched j.toOrientedJoin (keys.map f) rows =
      (((rows.map tuple).filter (· ∉ keys) : List K) : Multiset K).map fun k =>
        (f k).extend? j.child (rows.find? fun row => tuple row = k) := by
    have hfilter : ((rows : Multiset Row).filter fun row => ∀ x ∈ keys.map f,
        db.joins j.join (x.extend j.child row) ≠ .yes) =
        (rows.filter (tuple · ∉ keys) : List Row) := by
      rw [← Multiset.filter_coe]
      refine Multiset.filter_congr fun row hrow => ?_
      rw [Multiset.forall_mem_map_iff]
      refine ⟨fun h hk => h _ hk ((hmatch _ hk row hrow).2 rfl), fun h k hk hyes => h ?_⟩
      rwa [(hmatch k hk row hrow).1 hyes]
    rw [Database.unmatched, hfilter, List.filter_map, Multiset.map_coe, Multiset.map_coe,
      List.map_map]
    congr 1
    refine List.map_congr_left fun row hrow => ?_
    obtain ⟨hrow, hnew⟩ := List.mem_filter.1 hrow
    rw [Function.comp_apply, find?_key_eq_some hnodup hrow, hother _ (by simpa using hnew)]
    rfl
  simp only [Database.join, hkind]
  rw [hleft, hunmatched, Multiset.map_add]

end Joins

/-! ## The condition of a merge -/

namespace CompileScope

variable (scope : CompileScope) {dimensions : List Member} {before : List String}

/-- The equation of a dimension in the condition of a merge. -/
private def mergeEquation (before : List String) (name : String) (d : Member) : Fragment :=
  coalesce (before.map fun s => scope.qualified s d.label) ++ .ofText " = " ++
    scope.qualified name d.label

private theorem coalesce_eq (before : List String) (d : Member) :
    coalesce (before.map fun s => scope.qualified s d.label) =
      coalesce ((before.map (·, d.label)).map fun c => scope.qualified c.1 c.2) := by
  rw [List.map_map]
  rfl

/-- The equation of a dimension has its first column on the left and that of the new segment on the
right. -/
private theorem pieces_mergeEquation (before : List String) (name : String) (d : Member) :
    (scope.mergeEquation before name d).pieces = [.text " = "].intercalate
      [(coalesce (before.map fun s => scope.qualified s d.label)).pieces,
        (scope.qualified name d.label).pieces] := by
  simp [mergeEquation, Fragment.ofText]

/-- The equation of a dimension is read as one between the columns before and the new one. -/
private theorem readEquation_mergeEquation (hbefore : before ≠ []) (name : String) (d : Member) :
    readEquation (scope.mergeEquation before name d).pieces =
      some (before.map (·, d.label), [(name, d.label)]) := by
  have hsides : ∀ side ∈ [(coalesce (before.map fun s => scope.qualified s d.label)).pieces,
      (scope.qualified name d.label).pieces], Piece.text " = " ∉ side := by
    rw [coalesce_eq]
    simp only [List.forall_mem_cons, List.not_mem_nil, false_imp_iff, implies_true, and_true]
    refine ⟨scope.text_not_mem_pieces_coalesce (by decide) _, ?_⟩
    simp [CompileScope.qualified, Fragment.ofColumn]
  rw [readEquation, pieces_mergeEquation, List.splitOn_intercalate _ hsides (by simp)]
  dsimp only
  rw [coalesce_eq, readValue_coalesce scope (by simpa using hbefore)]
  rfl

/-- The condition on which a segment is merged is read as an equation for each dimension. -/
theorem readCondition_mergeCondition (hdimensions : dimensions ≠ []) (hbefore : before ≠ [])
    (name : String) : readCondition (scope.mergeCondition dimensions before name).pieces =
      some (dimensions.map fun d => (before.map (·, d.label), [(name, d.label)])) := by
  -- No equation holds the word between two of them, so the condition is cut there and nowhere else.
  have hequations : ∀ pieces ∈ (dimensions.map (scope.mergeEquation before name)).map (·.pieces),
      Piece.text " and " ∉ pieces := by
    intro pieces hpieces
    obtain ⟨_, hequation, rfl⟩ := List.mem_map.1 hpieces
    obtain ⟨d, -, rfl⟩ := List.mem_map.1 hequation
    have hleft : Piece.text " and " ∉
        (coalesce (before.map fun s => scope.qualified s d.label)).pieces := by
      rw [coalesce_eq]
      exact scope.text_not_mem_pieces_coalesce (by decide) _
    have hright : Piece.text " and " ∉ (scope.qualified name d.label).pieces := by
      simp [CompileScope.qualified, Fragment.ofColumn]
    simp [mergeEquation, hleft, hright, Fragment.ofText]
  have hmerge : scope.mergeCondition dimensions before name =
    Fragment.join " and " (dimensions.map (scope.mergeEquation before name)) := rfl
  rw [hmerge, readCondition, Fragment.pieces_join (by decide),
    List.splitOn_intercalate _ hequations (by simpa using hdimensions), List.mapM_map,
    List.mapM_map]
  have hread : (readEquation ∘ (·.pieces)) ∘ scope.mergeEquation before name =
      fun d => some (before.map (·, d.label), [(name, d.label)]) :=
    funext fun d => scope.readEquation_mergeEquation hbefore name d
  rw [hread]
  exact List.mapM_pure

end CompileScope

/-! ## Merged rows -/

section Merged

variable {V : Type} [DecidableEq V] {dimensions : List Member} {tables : String → List (Row V)}
  {names : List String}

/-- Where a table has a row with a key, the first value of a dimension that is not null is that of
the key. -/
theorem firstValue_of_mergedRow (hkeyed : ∀ name ∈ names, IsKeyed dimensions (tables name))
    {name : String} (hname : name ∈ names) {row : Row V} (hrow : row ∈ tables name) {d : Member}
    (hd : d ∈ dimensions) {x : JoinedRow (Row V)}
    (hx : ∀ n ∈ names, x n = mergedRow dimensions tables names (tupleOf dimensions row) n) :
    firstValue (names.map (·, d.label)) x = row d.label := by
  obtain ⟨v, hv⟩ := (hkeyed name hname).value row hrow d hd
  have hrowAt (n : String) (hn : n ∈ names) :
      x n = rowAt dimensions (tables n) (tupleOf dimensions row) := by
    rw [hx n hn, mergedRow, if_pos hn]
  rw [firstValue, List.findSome?_map, hv]
  -- A table has no row with the key, or one in which the dimension has this value.
  cases hfirst : names.findSome? ((fun column : String × String =>
      (x column.1).bind (· column.2)) ∘ (·, d.label)) with
  | none =>
    have hnull := List.findSome?_eq_none_iff.1 hfirst name hname
    rw [Function.comp_apply, hrowAt name hname, (hkeyed name hname).rowAt_tupleOf hrow] at hnull
    exact absurd (hnull.symm.trans hv) nofun
  | some w =>
    obtain ⟨n, hn, hvalue⟩ := List.exists_of_findSome?_eq_some hfirst
    rw [Function.comp_apply, hrowAt n hn] at hvalue
    obtain ⟨row', hrow', hvalue⟩ := Option.bind_eq_some_iff.1 hvalue
    have heq := tupleOf_eq_tupleOf.1 (of_rowAt_eq_some hrow').2 d hd
    rw [← hvalue, heq, hv]

/-- One more table adds its row with the key. -/
theorem mergedRow_concat {name : String} (hname : name ∉ names) (key : List (Option V)) :
    mergedRow dimensions tables (names ++ [name]) key =
      (mergedRow dimensions tables names key).extend? name
        (rowAt dimensions (tables name) key) := by
  funext n
  by_cases hn : n = name
  · subst hn
    cases hrow : rowAt dimensions (tables n) key <;>
      simp [mergedRow, JoinedRow.extend?, hname, hrow]
  · cases hrow : rowAt dimensions (tables name) key <;> simp [mergedRow, JoinedRow.extend?, hn]

/-- One more table adds the keys that do not occur before. -/
theorem keysOf_concat {name : String} (hkeyed : IsKeyed dimensions (tables name)) :
    (keysOf dimensions tables names : Multiset (List (Option V))) +
      (((tables name).map (tupleOf dimensions)).filter
        (· ∉ (keysOf dimensions tables names : Multiset (List (Option V)))) :
          List (List (Option V))) = keysOf dimensions tables (names ++ [name]) := by
  rw [Multiset.coe_add, Multiset.coe_eq_coe]
  refine (List.perm_ext_iff_of_nodup ?_ (nodup_keysOf _ _ _)).2 fun key => ?_
  · refine (nodup_keysOf _ _ _).append (hkeyed.nodup.filter _) fun key hkey hnew => ?_
    exact of_decide_eq_true (List.mem_filter.1 hnew).2 hkey
  · rw [mem_keysOf_concat, List.mem_append, List.mem_filter, decide_eq_true_eq, Multiset.mem_coe]
    tauto

/-- Without a table there is nothing to merge. -/
theorem mergedRow_eq_none {key : List (Option V)} (hkey : key ∉ keysOf dimensions tables names) :
    mergedRow dimensions tables names key = fun _ => none := by
  funext n
  unfold mergedRow
  split_ifs with hn
  · refine rowAt_eq_none.2 fun row hrow heq => hkey ?_
    exact mem_keysOf.2 ⟨n, hn, row, hrow, heq⟩
  · rfl

/-- The rows of the first table stand alone. -/
theorem map_alone_eq {name : String} (hkeyed : IsKeyed dimensions (tables name)) :
    (((tables name).map (JoinedRow.alone name) : List (JoinedRow (Row V))) :
        Multiset (JoinedRow (Row V))) = mergedRows dimensions tables [name] := by
  have hkeys : keysOf dimensions tables [name] = (tables name).map (tupleOf dimensions) := by
    rw [keysOf, List.flatMap_singleton, hkeyed.nodup.dedup]
  rw [mergedRows, hkeys, Multiset.map_coe, List.map_map]
  congr 1
  refine List.map_congr_left fun row hrow => ?_
  have hfirst : mergedRow dimensions tables [] (tupleOf dimensions row) = fun _ => none :=
    mergedRow_eq_none (by simp [keysOf])
  have hmerged : mergedRow dimensions tables [name] (tupleOf dimensions row) =
      (mergedRow dimensions tables [] (tupleOf dimensions row)).extend? name (some row) := by
    rw [← hkeyed.rowAt_tupleOf hrow]
    exact mergedRow_concat List.not_mem_nil _
  rw [Function.comp_apply, hmerged, hfirst]
  rfl

end Merged

/-! ## The chain of merges -/

namespace CompileScope

variable {scope : CompileScope} {V : Type} [DecidableEq V] {dimensions : List Member}
  {tables : String → List (Row V)} {before : List String} {name : String}

/-- A merged row and a row of the next table meet the condition where they have the same key. -/
theorem truth_mergeCondition (hdimensions : dimensions ≠ []) (hbefore : before ≠ [])
    (hkeyed : ∀ n ∈ before, IsKeyed dimensions (tables n)) (hname : name ∉ before)
    {key : List (Option V)} (hkey : key ∈ keysOf dimensions tables before) (row : Row V) :
    (scope.mergeCondition dimensions before name).truth
        ((mergedRow dimensions tables before key).extend name row) = .yes ↔
      tupleOf dimensions row = key := by
  obtain ⟨n, hn, found, hfound, rfl⟩ := mem_keysOf.1 hkey
  -- The first value of a dimension that is not null is the one in the row that has been found.
  have hleft (d : Member) (hd : d ∈ dimensions) :
      firstValue (before.map (·, d.label)) ((mergedRow dimensions tables before
        (tupleOf dimensions found)).extend name row) = found d.label := by
    refine firstValue_of_mergedRow hkeyed hn hfound hd fun n hn => JoinedRow.extend_of_ne _ _ ?_
    exact ne_of_mem_of_not_mem hn hname
  have hright (d : Member) : firstValue [(name, d.label)] ((mergedRow dimensions tables before
      (tupleOf dimensions found)).extend name row) = row d.label := by
    cases hvalue : row d.label <;> simp [firstValue, hvalue]
  rw [Fragment.truth, scope.readCondition_mergeCondition hdimensions hbefore]
  dsimp only
  rw [Truth.all_eq_yes, List.map_map, List.forall_mem_map, tupleOf_eq_tupleOf]
  refine forall₂_congr fun d hd => ?_
  rw [Function.comp_apply, hleft d hd, hright d, equation_eq_yes]
  obtain ⟨v, hv⟩ := (hkeyed n hn).value found hfound d hd
  rw [hv]
  simp [eq_comm]

/-- One merge: the keys and rows of one more table are added. -/
theorem rows_merge (hdimensions : dimensions ≠ []) (hbefore : before ≠ [])
    (hkeyed : ∀ n ∈ before ++ [name], IsKeyed dimensions (tables n)) (hname : name ∉ before)
    {st : Statement} (hst : st.label = some name) :
    JoinClause.rows tables (mergedRows dimensions tables before)
      ⟨.full, .statement st, some (scope.mergeCondition dimensions before name)⟩ =
      mergedRows dimensions tables (before ++ [name]) := by
  have htable := hkeyed name (List.mem_append_right _ (List.mem_singleton_self name))
  have hlabel : (Source.statement st).label? = some name := hst
  rw [mergedRows, mergedRows, JoinClause.rows]
  simp only [hlabel]
  rw [Database.join_full_eq rfl htable.nodup, keysOf_concat htable]
  · refine Multiset.map_congr rfl fun key _ => ?_
    rw [mergedRow_concat hname]
    rfl
  · intro key hkey row _
    exact truth_mergeCondition hdimensions hbefore
      (fun n hn => hkeyed n (List.mem_append_left _ hn)) hname hkey row
  · intro key hkey
    exact mergedRow_eq_none hkey

/-- Without dimensions, rows are put beside each other. -/
theorem rows_cross (hbefore : before ≠ [])
    (htables : ∀ n ∈ before ++ [name], ∃ row, tables n = [row]) (hname : name ∉ before)
    {st : Statement} (hst : st.label = some name) :
    JoinClause.rows tables (mergedRows [] tables before) ⟨.cross, .statement st, none⟩ =
      mergedRows [] tables (before ++ [name]) := by
  obtain ⟨row, hrow⟩ := htables name (List.mem_append_right _ (List.mem_singleton_self name))
  have hlabel : (Source.statement st).label? = some name := hst
  rw [mergedRows, mergedRows, keysOf_nil hbefore fun n hn => htables n (List.mem_append_left _ hn),
    keysOf_nil (by simp) htables, JoinClause.rows]
  simp only [hlabel]
  simp [Database.join, hrow, mergedRow_concat hname, rowAt_nil, JoinedRow.extend?]

/-- The joins of the root merge one table after the other. -/
theorem foldl_rootJoins (hbefore : before ≠ []) {rest : List (String × Statement)}
    (hnamed : ∀ x ∈ rest, x.2.label = some x.1) (hnodup : (before ++ rest.map Prod.fst).Nodup)
    (htables : ∀ n ∈ before ++ rest.map Prod.fst, IsSegmentTable dimensions (tables n)) :
    (scope.rootJoins dimensions before rest).foldl (JoinClause.rows tables)
        (mergedRows dimensions tables before) =
      mergedRows dimensions tables (before ++ rest.map Prod.fst) := by
  -- Induction on the tables to come: one join makes the next of them one of those before.
  induction rest generalizing before with
  | nil => simp [rootJoins]
  | cons x rest ih =>
    obtain ⟨name, st⟩ := x
    obtain ⟨hst, hrest⟩ := List.forall_mem_cons.1 hnamed
    rw [List.map_cons, List.append_cons] at hnodup htables ⊢
    have hname : name ∉ before := by
      intro hmem
      exact (List.nodup_append.1 hnodup.of_append_left).2.2 name hmem name
        (List.mem_singleton_self name) rfl
    have hadded : ∀ n ∈ before ++ [name], IsSegmentTable dimensions (tables n) :=
      fun n hn => htables n (List.mem_append_left _ hn)
    have hstep : JoinClause.rows tables (mergedRows dimensions tables before)
        (if dimensions.isEmpty then ⟨.cross, .statement st, none⟩
          else ⟨.full, .statement st, some (scope.mergeCondition dimensions before name)⟩) =
        mergedRows dimensions tables (before ++ [name]) := by
      split_ifs with hempty
      · obtain rfl := List.isEmpty_iff.1 hempty
        exact rows_cross hbefore (fun n hn => (hadded n hn).single rfl) hname hst
      · exact rows_merge (by simpa using hempty) hbefore (fun n hn => (hadded n hn).toIsKeyed) hname
          hst
    rw [rootJoins, List.foldl_cons, hstep]
    exact ih (by simp) hrest hnodup htables

/-- Before its conditions, the root has one row for each key that occurs in a segment. -/
theorem IsRootStatement.joinedRows_eq {predicates : PredicateScope} {query : Query} {e : Expansion}
    {segments : List Statement} {st : Statement} (he : scope.IsExpansion query e)
    (h : scope.IsRootStatement predicates e segments st)
    (hsegments : List.Forall₂ (fun s inner => inner.label = some s.label) e.segments segments)
    (htables : ∀ s ∈ e.segments, IsSegmentTable e.dimensions (tables s.label)) :
    st.joinedRows tables = mergedRows e.dimensions tables (e.segments.map (·.label)) := by
  have hnodup := he.nodup_labels
  rw [Statement.joinedRows, h.source, h.joins, e.segments_rootLayout]
  generalize e.segments = parts at hsegments htables hnodup
  cases hsegments with
  | nil => rfl
  | @cons s inner parts segments hinner hrest =>
    have hlabel : (Source.statement inner).label? = some s.label := hinner
    have hzip : ((parts.map (·.label)).zip segments).map Prod.fst = parts.map (·.label) :=
      List.map_fst_zip (by simp [hrest.length_eq])
    have hnamed : List.Forall₂ (fun (label : String) (inner : Statement) => inner.label = some label)
        (parts.map (·.label)) segments :=
      List.forall₂_map_left_iff.2 hrest
    simp only [List.head?_cons, Option.map_some, Option.bind_some, hlabel, List.map_cons,
      List.take_succ_cons, List.take_zero, List.zip_cons_cons, List.drop_succ_cons, List.drop_zero]
    -- The first segment is read alone, each further one is merged with those before it.
    rw [map_alone_eq (htables s List.mem_cons_self).toIsKeyed, foldl_rootJoins (by simp)
      (fun x hx => (List.forall₂_iff_zip.1 hnamed).2 hx) (by rwa [hzip])
      (by rw [hzip]; simpa using htables), hzip]
    rfl

end CompileScope

/-! ## The rows of the root -/

namespace Expansion

variable {V : Type} [DecidableEq V]

/-- The segment that computes a metric. -/
def segmentWith? (e : Expansion) (m : Member) : Option Segment :=
  e.segments.find? fun s => m.path ∈ s.metrics.map (·.path)

/-- The value of a metric in the row with a key of the segment that computes the metric, or nothing
where there is no such row. -/
def metricAt (e : Expansion) (tables : String → List (Row V)) (key : List (Option V))
    (m : Member) : Option V := do
  let s ← e.segmentWith? m
  let row ← rowAt e.dimensions (tables s.label) key
  row m.label

/-- The row of a key: the key under the labels of the dimensions, and the values of the metrics. -/
def resultRow (e : Expansion) (tables : String → List (Row V)) (key : List (Option V)) :
    List (Option String × Option V) :=
  (e.dimensions.map fun d => some d.label).zip key ++
    e.metrics.map fun m => (some m.label, e.metricAt tables key m)

end Expansion

namespace CompileScope

variable {scope : CompileScope} {V : Type}

/-- The segment that is found for a metric is the one that has it. -/
theorem IsExpansion.segmentWith?_eq {query : Query} {e : Expansion} (h : scope.IsExpansion query e)
    {s : Segment} (hs : s ∈ e.segments) {m : Member} (hm : m ∈ s.metrics) :
    e.segmentWith? m = some s := by
  cases hfound : e.segmentWith? m with
  | none =>
    have hnone := List.find?_eq_none.1 hfound s hs
    exact absurd (List.mem_map_of_mem hm) (by simpa using hnone)
  | some s' =>
    have hsome : m.path ∈ s'.metrics.map (·.path) := by simpa using List.find?_some hfound
    obtain ⟨m', hm', hpath⟩ := List.mem_map.1 hsome
    rw [h.segment_eq_of_path (List.mem_of_find?_eq_some hfound) hs hm' hm hpath]

/-- The root selects a dimension as its first value that is not null. -/
theorem rootItem_dimension {layout : RootLayout} (hsegments : layout.segments ≠ []) {m : Member}
    (hm : m.isMetric = false) {item : SelectItem}
    (h : (Resolver.rootItem scope layout m : Result SelectItem) = .ok item)
    (x : JoinedRow (Row V)) : (item.label, item.expr.value x) =
      (some m.label, firstValue (layout.segments.map (·, m.label)) x) := by
  simp only [Resolver.rootItem, Resolver.rootSql, hm] at h
  obtain rfl := Except.ok.inj h
  have hread : readValue (coalesce ((layout.segments.map (·, m.label)).map fun c =>
      scope.qualified c.1 c.2)).pieces = some (layout.segments.map (·, m.label)) :=
    scope.readValue_coalesce (by simpa using hsegments)
  rw [List.map_map] at hread
  refine congrArg (some m.label, ·) ?_
  exact congrArg (Option.bind · (firstValue · x)) hread

/-- The root selects a metric from the segment in its layout. -/
theorem rootItem_metric {layout : RootLayout} {m : Member} (hm : m.isMetric = true)
    {segment : String} (hsegment : layout.segmentOf? m.label = some segment) {item : SelectItem}
    (h : (Resolver.rootItem scope layout m : Result SelectItem) = .ok item)
    (x : JoinedRow (Row V)) : (item.label, item.expr.value x) =
      (some m.label, (x segment).bind (· m.label)) := by
  simp only [Resolver.rootItem, Resolver.rootSql, hm, hsegment] at h
  obtain rfl := Except.ok.inj h
  refine congrArg (some m.label, ·) ?_
  cases hvalue : (x segment).bind (· m.label) <;>
    simp [Fragment.value, CompileScope.qualified, Fragment.ofColumn, readValue, firstValue, hvalue]

section Rows

variable [DecidableEq V] {query : Query} {e : Expansion} {tables : String → List (Row V)}

/-- The selected expressions of the root give the row of a key. -/
theorem IsRootStatement.select_eq {predicates : PredicateScope} {segments : List Statement}
    {st : Statement} (he : scope.IsExpansion query e) (hapart : e.MetricsApart)
    (h : scope.IsRootStatement predicates e segments st)
    (htables : ∀ s ∈ e.segments, IsKeyed e.dimensions (tables s.label))
    {key : List (Option V)} (hkey : key ∈ keysOf e.dimensions tables (e.segments.map (·.label))) :
    st.select.map (fun item => (item.label, item.expr.value
      (mergedRow e.dimensions tables (e.segments.map (·.label)) key))) = e.resultRow tables key := by
  obtain ⟨name, hname, row, hrow, rfl⟩ := mem_keysOf.1 hkey
  have hkeyed : ∀ n ∈ e.segments.map (·.label), IsKeyed e.dimensions (tables n) :=
    List.forall_mem_map.2 htables
  have hlayout : e.rootLayout.segments ≠ [] := by
    rw [e.segments_rootLayout]
    exact List.ne_nil_of_mem hname
  have hdimensions := (List.forall₂_take_append _ _ _ h.select.flip).flip
  have hmetrics := (List.forall₂_drop_append _ _ _ h.select.flip).flip
  rw [← List.take_append_drop e.dimensions.length st.select, List.map_append, Expansion.resultRow,
    tupleOf, List.zip_map']
  -- A dimension has its value in whichever segment has the key, a metric in its own segment.
  congr 1
  · apply map_eq_map_of_forall₂
    refine ((List.forall₂_and_left _ _).2 ⟨fun _ hd => hd, hdimensions⟩).flip.imp fun item d hd => ?_
    rw [rootItem_dimension hlayout (he.isMetric_of_dimension hd.1) hd.2, e.segments_rootLayout]
    exact congrArg _ (firstValue_of_mergedRow hkeyed hname hrow hd.1 fun _ _ => rfl)
  · apply map_eq_map_of_forall₂
    refine ((List.forall₂_and_left _ _).2 ⟨fun _ hm => hm, hmetrics⟩).flip.imp fun item m hm => ?_
    obtain ⟨s, hs, hmem⟩ := he.exists_segment hm.1
    rw [rootItem_metric (he.isMetric_of_metric hm.1) (Expansion.segmentOf?_eq hapart hs hmem) hm.2,
      Expansion.metricAt, he.segmentWith?_eq hs hmem, mergedRow, if_pos (List.mem_map_of_mem hs)]
    rfl

/-- The root has one row for each key that occurs in a segment. -/
theorem rows_eq_map_resultRow {depth : Nat} {st : Statement}
    (h : scope.statementWithin depth query = .ok st) (he : scope.expand query = .ok e)
    (hapart : e.MetricsApart)
    (htables : ∀ s ∈ e.segments, IsSegmentTable e.dimensions (tables s.label)) :
    st.rows tables =
      ((keysOf e.dimensions tables (e.segments.map (·.label))).map (e.resultRow tables) :
        List (List (Option String × Option V))) := by
  obtain ⟨_, e', segments, -, he', hsegments, hroot⟩ := exists_parts_of_statementWithin h
  obtain rfl := Except.ok.inj (he.symm.trans he')
  have hlabels : List.Forall₂ (fun s inner => inner.label = some s.label) e.segments segments :=
    hsegments.imp fun s inner ⟨_, _, hinner⟩ => hinner.label
  rw [Statement.rows, hroot.joinedRows_eq (isExpansion_of_expand he) hlabels htables,
    mergedRows, Multiset.map_map, ← Multiset.map_coe]
  refine Multiset.map_congr rfl fun key hkey => ?_
  exact hroot.select_eq (isExpansion_of_expand he) hapart (fun s hs => (htables s hs).toIsKeyed)
    (Multiset.mem_coe.1 hkey)

/-- The root merges the segments of a query by the requested dimensions, for all tables that the
segments may give: where the values of the dimensions are not null and no two rows of a table have
the same, every key that occurs in a segment has one row, with the values that the metrics have
under that key in their own segments. Without dimensions there is one row, with all metrics. -/
theorem statement_merges_segments {depth : Nat} {st : Statement}
    (h : scope.statementWithin depth query = .ok st) (he : scope.expand query = .ok e)
    (hapart : e.MetricsApart) (tables : String → List (Row V)) :
    (query.dimensions ≠ [] → (∀ s ∈ e.segments, IsKeyed e.dimensions (tables s.label)) →
      st.rows tables =
        ((keysOf e.dimensions tables (e.segments.map (·.label))).map (e.resultRow tables) :
          List (List (Option String × Option V)))) ∧
    (query.dimensions = [] → (∀ s ∈ e.segments, ∃ row, tables s.label = [row]) →
      st.rows tables = {e.resultRow tables []}) := by
  have hdimensions := (isExpansion_of_expand he).dimensions_eq_nil
  refine ⟨fun hne hkeyed => ?_, fun hnil hsingle => ?_⟩
  · exact rows_eq_map_resultRow h he hapart fun s hs =>
      ⟨hkeyed s hs, fun hnil => absurd (hdimensions.1 hnil) hne⟩
  · have hnone : e.dimensions = [] := hdimensions.2 hnil
    -- Something is requested, so there is a metric and a segment that computes it.
    obtain ⟨m, hm⟩ := List.exists_mem_of_ne_nil _ (metrics_ne_nil_of_expand he hnone)
    obtain ⟨s, hs, -⟩ := (isExpansion_of_expand he).exists_segment hm
    have htables : ∀ s ∈ e.segments, IsSegmentTable e.dimensions (tables s.label) := by
      intro s hs
      obtain ⟨row, hrow⟩ := hsingle s hs
      rw [hnone, hrow]
      exact isSegmentTable_singleton row
    rw [rows_eq_map_resultRow h he hapart htables, hnone, keysOf_nil
      (List.ne_nil_of_mem (List.mem_map_of_mem hs)) (List.forall_mem_map.2 hsingle)]
    rfl

end Rows

/-! ## Merges of counts -/

/-- A table with a key and a number in each row. -/
private def countTable (key metric : String) (rows : List (Nat × Nat)) : List (Row Nat) :=
  rows.map fun row column =>
    if column = key then some row.1 else if column = metric then some row.2 else none

/-- Orders, visits and returns of a day. -/
private def dailyCounts : CompileScope where
  repository := {
    models :=
      { name := "day"
        source := .table "day"
        dimensions := [{ name := "id", primaryKey := true }] } ::
      ["orders", "visits", "returns"].map fun name =>
        { name := name
          source := .table name
          dimensions := [{ name := "id", primaryKey := true }, { name := "day" }]
          metrics := [⟨"count", none, fun _ => [.sql "count(", .column "id", .sql ")"]⟩] }
    joins := ["orders", "visits", "returns"].map fun name =>
      { origin := name
        target := "day"
        cardinality := .manyToOne
        condition := fun s => [s.originDimension "day", .sql " = ", s.targetDimension "id"] } }
  dialect := .ansi
  context := .null
  now := ⟨⟨2024, 1, 1⟩, .midnight⟩

/-- The counts of the given days. -/
private def counts (dimensions : List String) : Query where
  dimensions := dimensions
  metrics := ["orders.count", "visits.count", "returns.count"]

/-- Counts of three segments, each of them without one of the days. -/
private def dailyTables : String → List (Row Nat)
  | "s0" => countTable "day___id" "orders___count" [(1, 50), (2, 60)]
  | "s1" => countTable "day___id" "visits___count" [(2, 700), (3, 800)]
  | _ => countTable "day___id" "returns___count" [(3, 8), (1, 5)]

/-- Counts of all days. -/
private def totalTables : String → List (Row Nat)
  | "s0" => countTable "" "orders___count" [(0, 110)]
  | "s1" => countTable "" "visits___count" [(0, 1500)]
  | _ => countTable "" "returns___count" [(0, 13)]

/-- A query of counts has a statement, and its expansion keeps metrics apart. -/
private theorem exists_counts (dimensions : List String)
    (h : ((dailyCounts.statementWithin 0 (counts dimensions)).toOption.map fun _ => ()) = some ()) :
    ∃ st e, dailyCounts.statementWithin 0 (counts dimensions) = .ok st ∧
      dailyCounts.expand (counts dimensions) = .ok e ∧ e.MetricsApart := by
  have hr : dailyCounts.repository.UnambiguousNames := by decide +kernel
  obtain ⟨st, hst, -⟩ := exists_ok_of_toOption_map h
  obtain ⟨_, e, _, -, he, -⟩ := exists_parts_of_statementWithin hst
  exact ⟨st, e, hst, he, (isExpansion_of_expand he).metricsApart hr⟩

/-- Every day has one row, with nulls for what is not counted on that day. -/
theorem statement_merges_segments_daily :
    (∃ st, dailyCounts.statementWithin 0 (counts ["day.id"]) = .ok st ∧
      st.rows dailyTables = ↑[
        [(some "day___id", some 1), (some "orders___count", some 50),
          (some "visits___count", none), (some "returns___count", some 5)],
        [(some "day___id", some 2), (some "orders___count", some 60),
          (some "visits___count", some 700), (some "returns___count", none)],
        [(some "day___id", some 3), (some "orders___count", none),
          (some "visits___count", some 800), (some "returns___count", some 8)]]) ∧
    ∃ st, dailyCounts.statementWithin 0 (counts []) = .ok st ∧
      st.rows totalTables = {[(some "orders___count", some 110),
        (some "visits___count", some 1500), (some "returns___count", some 13)]} := by
  constructor
  · obtain ⟨st, e, hst, he, hapart⟩ := exists_counts ["day.id"] (by decide +kernel)
    have hrun : (dailyCounts.expand (counts ["day.id"])).toOption.map (fun e =>
        (decide (∀ s ∈ e.segments, IsKeyed e.dimensions (dailyTables s.label)),
          (keysOf e.dimensions dailyTables (e.segments.map (·.label))).map
            (e.resultRow dailyTables))) = some (true, [
        [(some "day___id", some 2), (some "orders___count", some 60),
          (some "visits___count", some 700), (some "returns___count", none)],
        [(some "day___id", some 3), (some "orders___count", none),
          (some "visits___count", some 800), (some "returns___count", some 8)],
        [(some "day___id", some 1), (some "orders___count", some 50),
          (some "visits___count", none), (some "returns___count", some 5)]]) := by
      decide +kernel
    rw [he] at hrun
    obtain ⟨hkeyed, hrows⟩ := Prod.mk.inj (Option.some.inj hrun)
    refine ⟨st, hst, ?_⟩
    rw [(statement_merges_segments hst he hapart dailyTables).1 (by decide)
      (of_decide_eq_true hkeyed), hrows]
    decide
  · obtain ⟨st, e, hst, he, hapart⟩ := exists_counts [] (by decide +kernel)
    have hrun : (dailyCounts.expand (counts [])).toOption.map (·.resultRow totalTables []) =
        some [(some "orders___count", some 110), (some "visits___count", some 1500),
          (some "returns___count", some 13)] := by decide +kernel
    rw [he] at hrun
    have hsingle (name : String) : ∃ row, totalTables name = [row] := by
      unfold totalTables
      split <;> exact ⟨_, rfl⟩
    refine ⟨st, hst, ?_⟩
    rw [(statement_merges_segments hst he hapart totalTables).2 rfl fun s _ => hsingle s.label]
    exact Multiset.singleton_inj.2 (Option.some.inj hrun)

/-- The counts of both models. -/
private def mistakenQuery : Query where
  dimensions := ["a.id"]
  metrics := ["a.b___c", "a___b.c"]

/-- A count of each of two models under the key of the first of them. -/
private def mistakenTables : String → List (Row Nat)
  | "s0" => countTable "a___id" "a___b___c" [(1, 10)]
  | _ => countTable "a___id" "a___b___c" [(1, 20)]

/-- Where two metrics have one label, the root reads both from the segment of the second one. The
declarations pass validation, and the tables are keyed. -/
theorem statement_mistakes_segment : ∃ st e,
    Repository.build confused.repository.models confused.repository.joins =
      .ok confused.repository ∧
    confused.statement mistakenQuery = .ok st ∧ confused.expand mistakenQuery = .ok e ∧
    (∀ s ∈ e.segments, IsKeyed e.dimensions (mistakenTables s.label)) ∧
    st.rows mistakenTables ≠
      ((keysOf e.dimensions mistakenTables (e.segments.map (·.label))).map
        (e.resultRow mistakenTables) : List (List (Option String × Option Nat))) := by
  have hrun : (confused.statement mistakenQuery).toOption.map (·.rows mistakenTables) =
      some {[(some "a___id", some 1), (some "a___b___c", some 20),
        (some "a___b___c", some 20)]} := by decide +kernel
  have hexpand : (confused.expand mistakenQuery).toOption.map (fun e =>
      (decide (∀ s ∈ e.segments, IsKeyed e.dimensions (mistakenTables s.label)),
        (keysOf e.dimensions mistakenTables (e.segments.map (·.label))).map
          (e.resultRow mistakenTables))) = some (true, [[(some "a___id", some 1),
        (some "a___b___c", some 10), (some "a___b___c", some 20)]]) := by decide +kernel
  obtain ⟨st, hst, hrows⟩ := exists_ok_of_toOption_map hrun
  obtain ⟨e, he, hexpected⟩ := exists_ok_of_toOption_map hexpand
  obtain ⟨hkeyed, hexpected⟩ := Prod.mk.inj hexpected
  refine ⟨st, e, rfl, hst, he, of_decide_eq_true hkeyed, ?_⟩
  rw [hrows, hexpected]
  decide

end CompileScope

end MetricLayer
