import MetricLayer.Proofs.Json.Canonical
import MetricLayer.Query.Json

/-!
# Reading back written queries

Reading a query undoes writing it, and what has been read is written and read back as it is. The
main statement is `Query.decode?_encode_eq`. It rests on three facts about filters:

* `Filter.asGroup?_or_decodeLeaf?_eq_none` — no value reads both as a group and as a leaf, since
  connectives and operators have different names;
* `Filter.decode?_canonical` — a value that reads as a filter does so after its keys have been
  sorted;
* `Filter.proper_of_decode?` — a leaf that has been read holds no null, and its value is in
  canonical form. A null as the value of a leaf is the one thing that is not read back.
-/

namespace MetricLayer

/-! ## Records and their fields -/

namespace Json

/-- An object that is read as a record has known fields, each once. -/
theorem fields_of_record?_object {names : List String} {fields fields' : List (String × Json)}
    (h : (object fields).record? names = some fields') :
    fields' = fields ∧ (fields.map (·.1)).Nodup ∧ ∀ k ∈ fields.map (·.1), k ∈ names := by
  simp only [record?, Option.ite_none_right_eq_some, Option.some.injEq] at h
  exact ⟨h.2.symm, h.1⟩

/-- An array that is read as a record has the first fields in order. -/
theorem fields_of_record?_array {names : List String} {items : List Json}
    {fields : List (String × Json)} (h : (array items).record? names = some fields) :
    fields = names.zip items ∧ items.length ≤ names.length := by
  simp only [record?, Option.ite_none_right_eq_some, Option.some.injEq] at h
  exact ⟨h.2.symm, h.1⟩

/-- The fields of a record are the same after its keys have been sorted. -/
theorem record?_canonical {names : List String} {v : Json} {fields : List (String × Json)}
    (h : v.record? names = some fields) :
    ∃ fields', v.canonical.record? names = some fields' ∧
      ∀ k, field? k fields' = (field? k fields).map canonical := by
  -- Sorting moves the fields of an object, and leaves those of an array in their places.
  cases v with
  | object given =>
    obtain ⟨rfl, hnodup, hnames⟩ := fields_of_record?_object h
    refine ⟨_, ?_, field?_canonicalFields hnodup⟩
    rw [canonical, record?, if_pos]
    refine ⟨?_, fun k hk => ?_⟩
    · have hkeys := (canonicalFields_canonicalFields canonicalFields_nil fields).keys
      exact hkeys.imp fun hlt => ne_of_lt hlt
    · rcases mem_keys_of_mem_canonicalFields hk with hk | hk
      · cases hk
      · exact hnames k hk
  | array items =>
    obtain ⟨rfl, hlength⟩ := fields_of_record?_array h
    refine ⟨names.zip (canonicalItems items), ?_, fun k => ?_⟩
    · rw [canonical, record?, if_pos (by simpa [canonicalItems_eq_map] using hlength)]
    · rw [canonicalItems_eq_map]
      clear h hlength
      induction names generalizing items with
      | nil => rfl
      | cons name names ih =>
        cases items with
        | nil => rfl
        | cons item items =>
          simp only [List.map_cons, List.zip_cons_cons, field?_cons, ih]
          split_ifs <;> rfl
  | _ => cases h

/-- The fields of a record lie inside of it. -/
theorem depth_lt_of_record? {names : List String} {v item : Json} {k : String}
    {fields : List (String × Json)} (h : v.record? names = some fields)
    (hitem : field? k fields = some item) : item.depth < v.depth := by
  -- A value is one deeper than the deepest of its parts, whatever order they stand in.
  cases v with
  | object given =>
    obtain ⟨rfl, -⟩ := fields_of_record?_object h
    rw [depth, Nat.lt_succ_iff]
    clear h
    induction fields with
    | nil => cases hitem
    | cons field rest ih =>
      obtain ⟨key, value⟩ := field
      rw [field?_cons] at hitem
      rw [depthFields]
      split_ifs at hitem
      · obtain rfl := Option.some.inj hitem
        omega
      · have := ih hitem
        omega
  | array items =>
    obtain ⟨rfl, -⟩ := fields_of_record?_array h
    rw [depth, Nat.lt_succ_iff]
    clear h
    induction names generalizing items with
    | nil => cases hitem
    | cons name names ih =>
      cases items with
      | nil => cases hitem
      | cons first rest =>
        rw [List.zip_cons_cons, field?_cons] at hitem
        rw [depthItems]
        split_ifs at hitem
        · obtain rfl := Option.some.inj hitem
          omega
        · have := ih rest hitem
          omega
  | _ => cases h

/-- A name is read from the canonical form. -/
theorem name?_canonical {v : Json} {name : String} (h : v.name? = some name) :
    v.canonical.name? = some name := by
  unfold name? at h
  split at h
  · exact h
  · exact h
  · cases h

/-- A text is its own canonical form. -/
theorem text?_canonical (v : Json) : v.canonical.text? = v.text? := by
  cases v <;> rfl

/-- A number is its own canonical form. -/
theorem nat?_canonical (v : Json) : v.canonical.nat? = v.nat? := by
  cases v <;> rfl

theorem optional_none {α : Type} (read : Json → Option α) : optional read none = some none := rfl

theorem optional_some {α : Type} (read : Json → Option α) {v : Json} (h : v ≠ .null) :
    optional read (some v) = (read v).map some := by
  cases v <;> first | rfl | exact absurd rfl h

/-- An optional value that is there has been read from a value that is not null. -/
theorem exists_of_optional {α : Type} {read : Json → Option α} {field : Option Json} {a : α}
    (h : optional read field = some (some a)) :
    ∃ v, field = some v ∧ v ≠ .null ∧ read v = some a := by
  cases field with
  | none => cases h
  | some v =>
    by_cases hnull : v = .null
    · subst hnull
      cases h
    · rw [optional_some _ hnull, Option.map_eq_some_iff] at h
      obtain ⟨b, hb, heq⟩ := h
      exact ⟨v, rfl, hnull, Option.some.inj heq ▸ hb⟩

/-- An optional value is read after sorting as its reader reads it. -/
theorem optional_canonical {α : Type} {read : Json → Option α} {g : α → α}
    (hread : ∀ v a, read v = some a → read v.canonical = some (g a)) {field : Option Json}
    {value : Option α} (h : optional read field = some value) :
    optional read (field.map canonical) = some (value.map g) := by
  cases field with
  | none =>
    obtain rfl := Option.some.inj h
    rfl
  | some v =>
    -- A null stands for no value, and nothing else becomes one by sorting.
    by_cases hnull : v = .null
    · subst hnull
      obtain rfl := Option.some.inj h
      rfl
    · rw [optional_some read hnull, Option.map_eq_some_iff] at h
      obtain ⟨a, ha, rfl⟩ := h
      rw [Option.map_some, optional_some read (mt canonical_eq_null.1 hnull), hread v a ha]
      rfl

/-- A list is read after sorting if its items are. -/
theorem list?_canonical {α : Type} {item : Json → Option α}
    (hitem : ∀ v a, item v = some a → item v.canonical = some a) {v : Json} {as : List α}
    (h : v.list? item = some as) : v.canonical.list? item = some as := by
  cases v with
  | array items =>
    rw [list?] at h
    rw [canonical, list?, canonicalItems_eq_map]
    induction items generalizing as with
    | nil => exact h
    | cons first rest ih =>
      simp only [List.mapM_cons, Option.bind_eq_bind, Option.pure_def, Option.bind_eq_some_iff,
        Option.some.injEq] at h
      obtain ⟨a, ha, others, hothers, rfl⟩ := h
      simp [List.mapM_cons, hitem first a ha, ih hothers]
  | _ => cases h

end Json

/-! ## Names -/

/-- A connective is found by its name. -/
theorem Connective.ofName?_name (c : Connective) : ofName? c.name = some c := by
  cases c <;> decide

/-- An operator is found by its name. -/
theorem Operator.ofName?_name (o : Operator) : ofName? o.name = some o := by
  cases o <;> decide

/-- A direction is found by its name. -/
theorem Sql.SortDirection.ofName?_name (d : SortDirection) : ofName? d.name = some d := by
  cases d <;> decide

/-- No name is both that of a connective and that of an operator. -/
theorem Operator.ofName?_eq_none {name : String} {c : Connective}
    (h : Connective.ofName? name = some c) : ofName? name = none := by
  have hname : c.name = name := by simpa using List.find?_some h
  rw [← hname]
  cases c <;> decide

/-! ## Filters that can be read back -/

/-- A leaf that holds no null. Its value is a JSON value in canonical form. -/
def FilterLeaf.Proper (l : FilterLeaf) : Prop :=
  ∀ v, l.value = some v → v ≠ .null ∧ v.canonical = v

/-- No leaf of a filter holds a null. -/
def Filter.Proper (f : Filter) : Prop := ∀ l ∈ f.leaves, l.Proper

/-- No leaf of a query's filter holds a null. -/
def Query.Proper (q : Query) : Prop := ∀ f, q.filter = some f → f.Proper

namespace Filter

/-! ## Groups and leaves -/

/-- A value read as a group. -/
def asGroup? (v : Json) : Option Filter := do
  let fields ← v.record? ["operator", "filters"]
  return .group (← groupConnective? fields) (← decodeChildren? fields)

/-- The filters of a group are read from an array. -/
private theorem decodeChildren?_eq (fields : List (String × Json)) :
    decodeChildren? fields = (Json.field? "filters" fields).bind fun
      | .array items => decodeAll? items
      | _ => none := by
  induction fields with
  | nil => rfl
  | cons field rest ih =>
    obtain ⟨key, value⟩ := field
    rw [decodeChildren?.eq_def, Json.field?_cons]
    by_cases hkey : key = "filters"
    · cases value <;> simp only [if_pos hkey, if_pos hkey.symm, Option.bind_some]
    · simp only [if_neg hkey, if_neg (Ne.symm hkey), ih]

/-- What has not the form of a group is read as a leaf. -/
private theorem decode?_eq_leaf {v : Json} (hobject : ∀ fields, v ≠ .object fields)
    (harray : ∀ operator children, v ≠ .array [operator, .array children]) :
    decode? v = (decodeLeaf? v).map .leaf := by
  rw [decode?]
  · exact hobject
  · exact harray

/-- A filter is read as a group where it can be, and otherwise as a leaf. -/
theorem decode?_eq_asGroup?_or (v : Json) :
    decode? v = (asGroup? v).or ((decodeLeaf? v).map .leaf) := by
  cases v with
  | object fields =>
    rw [decode?, asGroup?]
    cases hrecord : Json.record? ["operator", "filters"] (.object fields) with
    | none => rfl
    | some given =>
      obtain ⟨rfl, -⟩ := Json.fields_of_record?_object hrecord
      cases hc : groupConnective? given <;> cases hchildren : decodeChildren? given <;>
        simp [hc, hchildren]
  | array items =>
    -- Only an array of two items can be a group, and its second item must be an array.
    rcases items with _ | ⟨operator, _ | ⟨second, _ | ⟨third, rest⟩⟩⟩
    · rfl
    · rw [decode?_eq_leaf (by simp) (by simp)]
      simp [asGroup?, Json.record?, decodeChildren?_eq, Json.field?_cons]
    · have hrecord : Json.record? ["operator", "filters"] (.array [operator, second]) =
          some [("operator", operator), ("filters", second)] := rfl
      have hconnective : groupConnective? [("operator", operator), ("filters", second)] =
          groupConnective? [("operator", operator)] := rfl
      rw [asGroup?, hrecord]
      cases second with
      | array children =>
        rw [decode?]
        cases hc : groupConnective? [("operator", operator)] <;>
          cases hall : decodeAll? children <;>
          simp [hconnective, decodeChildren?_eq, Json.field?_cons, hc, hall]
      | _ =>
        rw [decode?_eq_leaf (by simp) (by simp)]
        simp [decodeChildren?_eq, Json.field?_cons]
    · rw [decode?_eq_leaf (by simp) (by simp)]
      simp [asGroup?, Json.record?]
  | _ => rfl

/-- What a value holds that reads as a leaf. -/
private theorem exists_of_decodeLeaf? {v : Json} {l : FilterLeaf} (h : decodeLeaf? v = some l) :
    ∃ fields name value, v.record? ["operator", "member", "value"] = some fields ∧
      (Json.field? "operator" fields).bind Json.name? = some name ∧
      Operator.ofName? name = some l.operator ∧
      Json.optional some (Json.field? "value" fields) = some value ∧
      l.value = value.map Json.canonical := by
  simp only [decodeLeaf?, Option.bind_eq_bind, Option.pure_def, Option.bind_eq_some_iff,
    Option.some.injEq] at h
  obtain ⟨fields, hfields, json, hjson, name, hname, operator, hoperator, -, -, -, -, value, hvalue,
    rfl⟩ := h
  exact ⟨fields, name, value, hfields, by rw [hjson]; exact hname, hoperator, hvalue, rfl⟩

/-- What a value holds that reads as a group. -/
private theorem exists_of_asGroup? {v : Json} {f : Filter} (h : asGroup? v = some f) :
    ∃ fields c children, v.record? ["operator", "filters"] = some fields ∧
      groupConnective? fields = some c ∧ decodeChildren? fields = some children ∧
      f = .group c children := by
  simp only [asGroup?, Option.bind_eq_bind, Option.pure_def, Option.bind_eq_some_iff,
    Option.some.injEq] at h
  obtain ⟨fields, hfields, c, hc, children, hchildren, rfl⟩ := h
  exact ⟨fields, c, children, hfields, hc, hchildren, rfl⟩

/-- No value reads both as a group and as a leaf. -/
theorem asGroup?_or_decodeLeaf?_eq_none (v : Json) : asGroup? v = none ∨ decodeLeaf? v = none := by
  cases hgroup : asGroup? v with
  | none => exact .inl rfl
  | some f =>
    refine .inr (Option.eq_none_iff_forall_ne_some.2 fun l hleaf => ?_)
    obtain ⟨fields, c, -, hrecord, hc, -, -⟩ := exists_of_asGroup? hgroup
    obtain ⟨fields', name, -, hrecord', hname, hoperator, -⟩ := exists_of_decodeLeaf? hleaf
    -- Both readings take the name of the operator from the same place.
    have hsame : Json.field? "operator" fields = Json.field? "operator" fields' := by
      cases v with
      | object given =>
        obtain ⟨rfl, -⟩ := Json.fields_of_record?_object hrecord
        obtain ⟨rfl, -⟩ := Json.fields_of_record?_object hrecord'
        rfl
      | array items =>
        obtain ⟨rfl, -⟩ := Json.fields_of_record?_array hrecord
        obtain ⟨rfl, -⟩ := Json.fields_of_record?_array hrecord'
        cases items <;> rfl
      | _ => cases hrecord
    -- That name is a connective of the group, and so no operator of the leaf.
    rw [groupConnective?, Option.bind_eq_bind, Option.bind_eq_bind, ← Option.bind_assoc, hsame,
      hname] at hc
    have hnone := Operator.ofName?_eq_none hc
    rw [hnone] at hoperator
    cases hoperator

/-! ## What has been read -/

/-- A leaf that has been read holds no null. -/
private theorem proper_of_decodeLeaf? {v : Json} {l : FilterLeaf} (h : decodeLeaf? v = some l) :
    l.Proper := by
  obtain ⟨fields, -, value, -, -, -, hvalue, hl⟩ := exists_of_decodeLeaf? h
  rintro w hw
  rw [hl, Option.map_eq_some_iff] at hw
  obtain ⟨u, rfl, rfl⟩ := hw
  obtain ⟨u', -, hnull, hsome⟩ := Json.exists_of_optional hvalue
  obtain rfl := Option.some.inj hsome
  exact ⟨mt Json.canonical_eq_null.1 hnull, Json.canonical_canonical u'⟩

/-- The children of a group are read from values inside of it. -/
private theorem exists_items_of_asGroup? {v : Json} {f : Filter} (h : asGroup? v = some f) :
    ∃ c children items, f = .group c children ∧ decodeAll? items = some children ∧
      Json.depthItems items < v.depth := by
  obtain ⟨fields, c, children, hrecord, -, hchildren, rfl⟩ := exists_of_asGroup? h
  rw [decodeChildren?_eq, Option.bind_eq_some_iff] at hchildren
  obtain ⟨json, hjson, hchildren⟩ := hchildren
  cases json with
  | array items =>
    refine ⟨c, children, items, rfl, hchildren, ?_⟩
    have hlt := Json.depth_lt_of_record? hrecord hjson
    rw [Json.depth] at hlt
    omega
  | _ => cases hchildren

/-- The leaves of several filters are read from values inside of them. -/
private theorem exists_decodeLeaf?_of_mem_leavesAll {l : FilterLeaf} {items : List Json}
    (h : ∀ v : Json, v.depth ≤ Json.depthItems items → ∀ f, decode? v = some f → l ∈ f.leaves →
      ∃ w, decodeLeaf? w = some l ∧ w.depth ≤ v.depth) {children : List Filter}
    (hall : decodeAll? items = some children) (hl : l ∈ leavesAll children) :
    ∃ w, decodeLeaf? w = some l ∧ w.depth ≤ Json.depthItems items := by
  -- The items of a list are no deeper than the list, so what holds of values of its depth can be
  -- used on each of them.
  induction items generalizing children with
  | nil =>
    obtain rfl := Option.some.inj hall
    cases hl
  | cons item rest ih =>
    simp only [decodeAll?, Option.bind_eq_bind, Option.pure_def, Option.bind_eq_some_iff,
      Option.some.injEq] at hall
    obtain ⟨child, hchild, others, hothers, rfl⟩ := hall
    rw [Json.depthItems] at h ⊢
    rcases List.mem_append.1 hl with hl | hl
    · obtain ⟨w, hw, hle⟩ := h item (by omega) child hchild hl
      exact ⟨w, hw, by omega⟩
    · obtain ⟨w, hw, hle⟩ := ih (fun v hv => h v (by omega)) hothers hl
      exact ⟨w, hw, by omega⟩

/-- Every leaf of a filter is read from a value inside of it. -/
theorem exists_decodeLeaf?_of_mem_leaves {v : Json} {f : Filter} (h : decode? v = some f)
    {l : FilterLeaf} (hl : l ∈ f.leaves) : ∃ w, decodeLeaf? w = some l ∧ w.depth ≤ v.depth := by
  -- Induction on the depth of the value; the items of a group lie deeper.
  induction hn : v.depth using Nat.strong_induction_on generalizing v f with
  | _ n ih =>
    subst hn
    rw [decode?_eq_asGroup?_or, Option.or_eq_some_iff] at h
    rcases h with hgroup | ⟨-, hleaf⟩
    · obtain ⟨c, children, items, rfl, hall, hlt⟩ := exists_items_of_asGroup? hgroup
      have hitems (v : Json) (hv : v.depth ≤ Json.depthItems items) (f : Filter)
          (hf : decode? v = some f) (hl : l ∈ f.leaves) :
          ∃ w, decodeLeaf? w = some l ∧ w.depth ≤ v.depth :=
        ih v.depth (by omega) hf hl rfl
      rw [leaves] at hl
      obtain ⟨w, hw, hle⟩ := exists_decodeLeaf?_of_mem_leavesAll hitems hall hl
      exact ⟨w, hw, by omega⟩
    · obtain ⟨l', hl', rfl⟩ := Option.map_eq_some_iff.1 hleaf
      obtain rfl := List.mem_singleton.1 hl
      exact ⟨v, hl', Nat.le_refl _⟩

/-- No leaf of a filter that has been read holds a null. -/
theorem proper_of_decode? {v : Json} {f : Filter} (h : decode? v = some f) : f.Proper := by
  intro l hl
  obtain ⟨w, hw, -⟩ := exists_decodeLeaf?_of_mem_leaves h hl
  exact proper_of_decodeLeaf? hw

/-- The value of a leaf lies inside of what the leaf is read from. -/
theorem depth_value_le {v : Json} {l : FilterLeaf} (h : decodeLeaf? v = some l) :
    (l.value.map Json.depth).getD 0 ≤ v.depth := by
  obtain ⟨fields, -, value, hrecord, -, -, hvalue, hl⟩ := exists_of_decodeLeaf? h
  cases value with
  | none => simp [hl]
  | some u =>
    obtain ⟨u', hu, -, hsome⟩ := Json.exists_of_optional hvalue
    obtain rfl := Option.some.inj hsome
    have hlt := Json.depth_lt_of_record? hrecord hu
    have hle := Json.depth_canonical_le u'
    simp only [hl, Option.map_some, Option.getD_some]
    omega

/-! ## Sorting the keys of what is read -/

/-- The connective of a group is read from the canonical form. -/
private theorem groupConnective?_canonical {fields fields' : List (String × Json)} {c : Connective}
    (h : groupConnective? fields = some c)
    (hfields : ∀ k, Json.field? k fields' = (Json.field? k fields).map Json.canonical) :
    groupConnective? fields' = some c := by
  simp only [groupConnective?, Option.bind_eq_bind, Option.bind_eq_some_iff] at h ⊢
  obtain ⟨operator, hoperator, name, hname, hc⟩ := h
  exact ⟨_, by rw [hfields, hoperator]; rfl, name, Json.name?_canonical hname, hc⟩

/-- A leaf is read also after keys have been sorted. -/
private theorem decodeLeaf?_canonical {v : Json} {l : FilterLeaf} (h : decodeLeaf? v = some l) :
    decodeLeaf? v.canonical = some l := by
  simp only [decodeLeaf?, Option.bind_eq_bind, Option.pure_def, Option.bind_eq_some_iff,
    Option.some.injEq] at h ⊢
  obtain ⟨fields, hfields, json, hjson, name, hname, operator, hoperator, member, hmember, text,
    htext, value, hvalue, rfl⟩ := h
  obtain ⟨fields', hfields', hsame⟩ := Json.record?_canonical hfields
  refine ⟨fields', hfields', json.canonical, by rw [hsame, hjson]; rfl, name,
    Json.name?_canonical hname, operator, hoperator, member.canonical, by rw [hsame, hmember]; rfl,
    text, by rw [Json.text?_canonical, htext], value.map Json.canonical, ?_, ?_⟩
  · rw [hsame]
    exact Json.optional_canonical (fun v a ha => Option.some.inj ha ▸ rfl) hvalue
  · -- The value that has been read is canonical already.
    have hvalue : value.map (Json.canonical ∘ Json.canonical) = value.map Json.canonical :=
      congrArg (Option.map · value) (funext Json.canonical_canonical)
    rw [Option.map_map, hvalue]

/-- Several filters are read from the canonical form. -/
private theorem decodeAll?_canonicalItems {items : List Json}
    (h : ∀ v : Json, v.depth ≤ Json.depthItems items → ∀ f, decode? v = some f →
      decode? v.canonical = some f) {children : List Filter}
    (hall : decodeAll? items = some children) :
    decodeAll? (Json.canonicalItems items) = some children := by
  -- As above, by induction on the items under an assumption on values of their depth.
  induction items generalizing children with
  | nil => exact hall
  | cons item rest ih =>
    simp only [decodeAll?, Option.bind_eq_bind, Option.pure_def, Option.bind_eq_some_iff,
      Option.some.injEq] at hall
    obtain ⟨child, hchild, others, hothers, rfl⟩ := hall
    rw [Json.depthItems] at h
    have hfirst := h item (by omega) child hchild
    have hrest := ih (fun v hv => h v (by omega)) hothers
    rw [Json.canonicalItems, decodeAll?, hfirst, hrest]
    rfl

/-- A filter is read also after keys have been sorted. -/
theorem decode?_canonical {v : Json} {f : Filter} (h : decode? v = some f) :
    decode? v.canonical = some f := by
  induction hn : v.depth using Nat.strong_induction_on generalizing v f with
  | _ n ih =>
    subst hn
    rw [decode?_eq_asGroup?_or, Option.or_eq_some_iff] at h
    rw [decode?_eq_asGroup?_or, Option.or_eq_some_iff]
    rcases h with hgroup | ⟨-, hleaf⟩
    · refine .inl ?_
      obtain ⟨fields, c, children, hrecord, hc, hchildren, rfl⟩ := exists_of_asGroup? hgroup
      obtain ⟨fields', hrecord', hsame⟩ := Json.record?_canonical hrecord
      rw [decodeChildren?_eq, Option.bind_eq_some_iff] at hchildren
      obtain ⟨json, hjson, hall⟩ := hchildren
      cases json with
      | array items =>
        have hlt := Json.depth_lt_of_record? hrecord hjson
        rw [Json.depth] at hlt
        have hsorted : decodeAll? (Json.canonicalItems items) = some children :=
          decodeAll?_canonicalItems (fun v hv f hf => ih v.depth (by omega) hf rfl) hall
        simp [asGroup?, hrecord', groupConnective?_canonical hc hsame, decodeChildren?_eq, hsame,
          hjson, Json.canonical, hsorted]
      | _ => cases hall
    · refine .inr ?_
      obtain ⟨l, hl, rfl⟩ := Option.map_eq_some_iff.1 hleaf
      have hsorted := decodeLeaf?_canonical hl
      refine ⟨?_, by rw [hsorted]; rfl⟩
      rcases asGroup?_or_decodeLeaf?_eq_none v.canonical with hnone | hnone
      · exact hnone
      · rw [hnone] at hsorted
        cases hsorted

/-! ## Writing and reading -/

/-- A leaf is read as it is written. -/
private theorem decodeLeaf?_encodeLeaf {l : FilterLeaf} (h : l.Proper) :
    decodeLeaf? (encodeLeaf l) = some l := by
  obtain ⟨operator, member, value⟩ := l
  have hname := Operator.ofName?_name operator
  cases value with
  | none =>
    simp [encodeLeaf, decodeLeaf?, Json.record?, Json.field?_cons, Json.name?, Json.text?,
      Json.optional, hname]
  | some v =>
    obtain ⟨hnull, hcanonical⟩ := h v rfl
    simp [encodeLeaf, decodeLeaf?, Json.record?, Json.field?_cons, Json.name?, Json.text?,
      Json.optional_some some hnull, hname, hcanonical]

/-- What is written for a leaf is not read as a group. -/
private theorem asGroup?_encodeLeaf (l : FilterLeaf) : asGroup? (encodeLeaf l) = none := by
  simp [encodeLeaf, asGroup?, Json.record?]

mutual

/-- A filter is read as it is written. -/
theorem decode?_encode : (f : Filter) → f.Proper → decode? f.encode = some f
  | .leaf l, h => by
    rw [encode, decode?_eq_asGroup?_or, asGroup?_encodeLeaf, 
      decodeLeaf?_encodeLeaf (h l (by simp [leaves]))]
    rfl
  | .group c children, h => by
    have hchildren := decodeAll?_encodeAll children h
    have hc := Connective.ofName?_name c
    rw [encode, decode?_eq_asGroup?_or]
    simp [asGroup?, Json.record?, groupConnective?, Json.field?_cons, Json.name?, hc,
      decodeChildren?_eq, hchildren]

/-- Several filters are read as they are written. -/
theorem decodeAll?_encodeAll : (children : List Filter) →
    (∀ l ∈ leavesAll children, l.Proper) → decodeAll? (encodeAll children) = some children
  | [], _ => rfl
  | child :: rest, h => by
    have hchild := decode?_encode child fun l hl => h l (by simp [leavesAll, hl])
    have hrest := decodeAll?_encodeAll rest fun l hl => h l (by simp [leavesAll, hl])
    rw [encodeAll, decodeAll?, hchild, hrest]
    rfl

end

end Filter

/-- An order is read back. -/
theorem OrderEntry.decode?_encode (entry : OrderEntry) : decode? entry.encode = some entry := by
  have hname := Sql.SortDirection.ofName?_name entry.direction
  simp [decode?, encode, Json.text?, Json.name?, hname]

/-- An order is read from the canonical form. -/
theorem OrderEntry.decode?_canonical {v : Json} {entry : OrderEntry} (h : decode? v = some entry) :
    decode? v.canonical = some entry := by
  fun_cases decode? v with
  | case1 path direction =>
    simp only [decode?, Option.bind_eq_bind, Option.pure_def, Option.bind_eq_some_iff,
      Option.some.injEq] at h
    obtain ⟨text, htext, name, hname, d, hd, rfl⟩ := h
    simp [Json.canonical, Json.canonicalItems, decode?, Json.text?_canonical, htext,
      Json.name?_canonical hname, hd]
  | case2 v harray =>
    rw [decode?] at h
    · cases h
    · exact harray

namespace Query

/-- A field with a list is read from the canonical form. -/
private theorem listField?_canonical {α : Type} {item : Json → Option α}
    (hitem : ∀ v a, item v = some a → item v.canonical = some a) {name : String}
    {fields fields' : List (String × Json)}
    (hsame : ∀ k, Json.field? k fields' = (Json.field? k fields).map Json.canonical)
    {as : List α} (h : listField? item name fields = some as) :
    listField? item name fields' = some as := by
  rw [listField?, hsame]
  rw [listField?] at h
  cases hfield : Json.field? name fields with
  | none => simpa [hfield] using h
  | some v => exact Json.list?_canonical hitem (by simpa [hfield] using h)

/-- A query is read also after keys have been sorted. -/
theorem decode?_canonical {v : Json} {q : Query} (h : decode? v = some q) :
    decode? v.canonical = some q := by
  simp only [decode?, Option.bind_eq_bind, Option.pure_def, Option.bind_eq_some_iff,
    Option.some.injEq] at h ⊢
  obtain ⟨fields, hfields, dimensions, hdimensions, metrics, hmetrics, filter, hfilter, order,
    horder, limit, hlimit, offset, hoffset, rfl⟩ := h
  obtain ⟨fields', hfields', hsame⟩ := Json.record?_canonical hfields
  -- Each field has a reader of its own, and sorting changes the result of none of them.
  have htext : ∀ (v : Json) (s : String), v.text? = some s → v.canonical.text? = some s :=
    fun v s hs => by rw [Json.text?_canonical, hs]
  have hnat : ∀ (v : Json) (n : Nat), v.nat? = some n → v.canonical.nat? = some (id n) :=
    fun v n hn => by rw [Json.nat?_canonical, hn]; rfl
  have hentry : ∀ v entry, OrderEntry.decode? v = some entry →
      OrderEntry.decode? v.canonical = some entry :=
    fun v entry hv => OrderEntry.decode?_canonical hv
  have hnode : ∀ v f, Filter.decode? v = some f → Filter.decode? v.canonical = some (id f) :=
    fun v f hv => Filter.decode?_canonical hv
  refine ⟨fields', hfields', dimensions, listField?_canonical htext hsame hdimensions,
    metrics, listField?_canonical htext hsame hmetrics, filter, ?_, order,
    listField?_canonical hentry hsame horder, limit, ?_, offset, ?_, rfl⟩
  · have := Json.optional_canonical hnode hfilter
    rwa [Option.map_id, ← hsame] at this
  · have := Json.optional_canonical hnat hlimit
    rwa [Option.map_id, ← hsame] at this
  · have := Json.optional_canonical hnat hoffset
    rwa [Option.map_id, ← hsame] at this

/-- No leaf of the filter of a query that has been read holds a null. -/
private theorem proper_of_decode? {v : Json} {q : Query} (h : decode? v = some q) : q.Proper := by
  simp only [decode?, Option.bind_eq_bind, Option.pure_def, Option.bind_eq_some_iff,
    Option.some.injEq] at h
  obtain ⟨fields, -, -, -, -, -, filter, hfilter, -, -, -, -, -, -, rfl⟩ := h
  rintro f rfl
  obtain ⟨w, -, -, hf⟩ := Json.exists_of_optional hfilter
  exact Filter.proper_of_decode? hf

/-- What the leaves of a query hold lies inside of the value that the query is read from. -/
theorem depth_lt_of_decode? {v : Json} {q : Query} (h : decode? v = some q) :
    q.depth < v.depth := by
  simp only [decode?, Option.bind_eq_bind, Option.pure_def, Option.bind_eq_some_iff,
    Option.some.injEq] at h
  obtain ⟨fields, hrecord, -, -, -, -, filter, hfilter, -, -, -, -, -, -, rfl⟩ := h
  have hpos : 0 < v.depth := by
    cases v <;> first | cases hrecord | (rw [Json.depth]; omega)
  cases filter with
  | none => exact hpos
  | some f =>
    obtain ⟨w, hw, -, hf⟩ := Json.exists_of_optional hfilter
    have hlt := Json.depth_lt_of_record? hrecord hw
    have hleaf : ∀ l ∈ f.leaves, (l.value.map Json.depth).getD 0 < v.depth := by
      intro l hl
      obtain ⟨u, hu, hle⟩ := Filter.exists_decodeLeaf?_of_mem_leaves hf hl
      have := Filter.depth_value_le hu
      omega
    change f.leaves.foldr _ 0 < _
    -- The depth of a query is the greatest one among its leaves.
    generalize f.leaves = leaves at hleaf
    induction leaves with
    | nil => exact hpos
    | cons l rest ih =>
      obtain ⟨hl, hrest⟩ := List.forall_mem_cons.1 hleaf
      rw [List.foldr_cons]
      exact max_lt hl (ih hrest)

/-! ## Writing and reading -/

/-- A list is read back where its items are. -/
private theorem mapM_map_eq {α : Type} {item : Json → Option α} {write : α → Json}
    (h : ∀ a, item (write a) = some a) (as : List α) : (as.map write).mapM item = some as := by
  induction as with
  | nil => rfl
  | cons a as ih => simp [List.mapM_cons, h, ih]

/-- A filter is never written as null. -/
private theorem encode_ne_null (f : Filter) : f.encode ≠ .null := by
  cases f <;> simp [Filter.encode, Filter.encodeLeaf]

/-- A query is read as it is written. -/
theorem decode?_encode {q : Query} (h : q.Proper) : decode? q.encode = some q := by
  obtain ⟨dimensions, metrics, filter, order, limit, offset⟩ := q
  have htexts : ∀ texts : List String, (texts.map Json.string).mapM Json.text? = some texts :=
    mapM_map_eq fun _ => rfl
  have horder := mapM_map_eq OrderEntry.decode?_encode order
  have hnat : ∀ n, Json.optional Json.nat? (some (Json.ofNat n)) = some (some n) := fun n => by
    simp [Json.ofNat, Json.optional, Json.nat?]
  have hfilter : Json.optional Filter.decode? (filter.map Filter.encode) = some filter := by
    cases filter with
    | none => rfl
    | some f =>
      rw [Option.map_some, Json.optional_some _ (encode_ne_null f),
        Filter.decode?_encode f (h f rfl)]
      rfl
  -- Which fields are written depends on which of the three are set.
  cases filter <;> cases limit <;> cases offset <;>
    simp_all [encode, decode?, Json.record?, fieldNames, Json.field?_cons, listField?, Json.list?,
      Json.optional_none]

/-- Reading undoes writing. A query of which no leaf holds a null is read as it is written, with
its keys in the order in which they are written or sorted. What has been read from any value is
written and read back as it is. And no value reads both as a group and as a leaf: a filter is read
as a group if that is possible, as a leaf if that is possible, and not at all otherwise. -/
theorem decode?_encode_eq :
    (∀ q : Query, q.Proper →
      decode? q.encode = some q ∧ decode? q.encode.canonical = some q) ∧
    (∀ (v : Json) (q : Query), decode? v = some q →
      decode? v.canonical = some q ∧ decode? q.encode = some q ∧
        decode? q.encode.canonical = some q) ∧
    (∀ v : Json, Filter.decode? v = (Filter.asGroup? v).or ((Filter.decodeLeaf? v).map .leaf) ∧
      (Filter.asGroup? v = none ∨ Filter.decodeLeaf? v = none)) := by
  have hback : ∀ q : Query, q.Proper →
      decode? q.encode = some q ∧ decode? q.encode.canonical = some q :=
    fun q hq => ⟨decode?_encode hq, decode?_canonical (decode?_encode hq)⟩
  refine ⟨hback, fun v q hq => ⟨decode?_canonical hq, hback q (proper_of_decode? hq)⟩, fun v => ?_⟩
  exact ⟨Filter.decode?_eq_asGroup?_or v, Filter.asGroup?_or_decodeLeaf?_eq_none v⟩

/-- A query as an array of its fields, with a group in a group and operators as objects. -/
private def positional : Json :=
  .array [.array [.string "orders.city"], .array [],
    .array [.object [("or", .null)],
      .array [.array [.string "and", .array [.array [.string "set", .string "orders.city"]]],
        .object [("value", .object [("b", .null), ("a", .null)]), ("member", .string "orders.id"),
          ("operator", .object [("equals", .null)])]]],
    .array [.array [.string "orders.city", .object [("desc", .null)]]], .null]

/-- What `positional` reads as. -/
private def positionalQuery : Query where
  dimensions := ["orders.city"]
  filter := some (.group .any [.group .all [.leaf ⟨.set, "orders.city", none⟩],
    .leaf ⟨.equals, "orders.id", some (.object [("a", .null), ("b", .null)])⟩])
  order := [⟨"orders.city", .desc⟩]

/-- A query that is written by position is read, and so is the one that is written for it. -/
theorem decode?_encode_eq_positional :
    decode? positional = some positionalQuery ∧
      decode? positionalQuery.encode = some positionalQuery := by
  have hread : decode? positional = some positionalQuery := by rfl
  exact ⟨hread, (decode?_encode_eq.2.1 positional positionalQuery hread).2.1⟩

end Query

end MetricLayer
