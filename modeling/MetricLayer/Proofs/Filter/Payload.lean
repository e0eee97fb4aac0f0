import MetricLayer.Filter.Payload
import MetricLayer.Proofs.Query.Json
import MetricLayer.Proofs.Result

/-!
# What a checked leaf holds

A leaf passes its check with a payload that its operator takes, that holds the value of the leaf and
whose values can be compared with. This says all about the check of a leaf, so nothing else unfolds
it.

- `Operator.Takes` — a payload of the shape that an operator wants;
- `Payload.Reads` — a payload holds the value of a leaf, in order;
- `FilterLeaf.check_ok_iff` — the payloads with which a leaf passes its check.
-/

namespace MetricLayer

/-! ## Payloads of operators and of values -/

/-- An operator with a payload of the shape that it takes. -/
inductive Operator.Takes (operator : Operator) : Payload → Prop
  | none (h : operator.shape = .none) : Takes operator .none
  | values {values : List Json} (h : operator.shape = .values) (hvalues : values ≠ []) :
      Takes operator (.values values)
  | strings {strings : List String} (h : operator.shape = .strings) (hstrings : strings ≠ []) :
      Takes operator (.strings strings)
  | date {text : String} (h : operator.shape = .date) : Takes operator (.date text)
  | phrase {text : String} (h : operator.shape = .range) : Takes operator (.phrase text)
  | bounds {first last : String} (h : operator.shape = .range) :
      Takes operator (.bounds first last)
  | query {query : Query} (h : operator.shape = .query) : Takes operator (.query query)

/-- The shape of a payload. -/
def Payload.shape : Payload → PayloadShape
  | .none => .none
  | .values _ => .values
  | .strings _ => .strings
  | .date _ => .date
  | .phrase _ | .bounds .. => .range
  | .query _ => .query

namespace Payload

variable {p : Payload}

theorem shape_eq_none_iff : p.shape = .none ↔ p = .none := by cases p <;> simp [shape]

theorem shape_eq_values_iff : p.shape = .values ↔ ∃ values, p = .values values := by
  cases p <;> simp [shape]

theorem shape_eq_strings_iff : p.shape = .strings ↔ ∃ texts, p = .strings texts := by
  cases p <;> simp [shape]

theorem shape_eq_date_iff : p.shape = .date ↔ ∃ text, p = .date text := by
  cases p <;> simp [shape]

theorem shape_eq_query_iff : p.shape = .query ↔ ∃ query, p = .query query := by
  cases p <;> simp [shape]

end Payload

/-- An operator takes payloads of its own shape. -/
theorem Operator.Takes.shape_eq {operator : Operator} {payload : Payload}
    (h : operator.Takes payload) : payload.shape = operator.shape := by
  cases h <;> exact Eq.symm ‹_›

/-- Which payloads an operator takes depends on the shape that it wants. -/
theorem Operator.Takes.congr {operator operator' : Operator} {payload : Payload}
    (h : operator.Takes payload) (hshape : operator.shape = operator'.shape) :
    operator'.Takes payload := by
  cases h with
  | none h => exact .none (hshape ▸ h)
  | values h hvalues => exact .values (hshape ▸ h) hvalues
  | strings h hstrings => exact .strings (hshape ▸ h) hstrings
  | date h => exact .date (hshape ▸ h)
  | phrase h => exact .phrase (hshape ▸ h)
  | bounds h => exact .bounds (hshape ▸ h)
  | query h => exact .query (hshape ▸ h)

/-- The entries of an array; any other value stands alone. -/
def Json.listed : Json → List Json
  | .array items => items
  | v => [v]

/-- The payload holds what is given, in order. -/
inductive Payload.Reads : Option Json → Payload → Prop
  | none : Reads Option.none Payload.none
  | values {v : Json} : Reads (some v) (.values v.listed)
  | strings {v : Json} {texts : List String} (h : v.listed = texts.map .string) :
      Reads (some v) (.strings texts)
  | date {v : Json} {text : String} (h : v.listed = [.string text]) : Reads (some v) (.date text)
  | phrase {v : Json} {text : String} (h : v.listed = [.string text]) :
      Reads (some v) (.phrase text)
  | bounds {v : Json} {first last : String} (h : v.listed = [.string first, .string last]) :
      Reads (some v) (.bounds first last)
  | query {v : Json} {query : Query} (h : Query.decode? v = some query) :
      Reads (some v) (.query query)

/-- The values of the payload are none of which a comparison makes no sense. -/
def Payload.Comparable : Payload → Prop
  | .values vs => ∀ v ∈ vs, v.isScalar = true
  | _ => True

namespace FilterLeaf

variable {l : FilterLeaf}

/-! ## The steps of the check -/

/-- The values of a leaf are those that it lists, if there are any and all of them are scalars. -/
private theorem scalars_ok_iff {values : List Json} : l.scalars = .ok values ↔
    (∃ v, l.value = some v ∧ v.listed = values) ∧ values ≠ [] ∧
      ∀ v ∈ values, v.isScalar = true := by
  unfold scalars
  extract_lets rest
  -- What has been read is checked and handed on as it is, be it one value or several.
  have hrest (read : List Json) : rest read = .ok values ↔
      read = values ∧ values ≠ [] ∧ ∀ v ∈ values, v.isScalar = true := by
    rw [check_eq_ok_iff]
    cases hbad : read.find? fun v => !v.isScalar with
    | none =>
      have hall : ∀ v ∈ read, v.isScalar = true := by simpa using hbad
      constructor
      · rintro ⟨hempty, h⟩
        obtain rfl := Except.ok.inj h
        exact ⟨rfl, by simpa using hempty, hall⟩
      · rintro ⟨rfl, hne, -⟩
        exact ⟨by simpa using hne, rfl⟩
    | some bad =>
      refine iff_of_false (fun h => by cases h.2) ?_
      rintro ⟨rfl, -, hall⟩
      have hscalar := List.find?_some hbad
      simp [hall bad (List.mem_of_find?_eq_some hbad)] at hscalar
  cases hvalue : l.value with
  | none => exact iff_of_false nofun nofun
  | some v =>
    have hlisted : (∃ w, some v = some w ∧ w.listed = values) ↔ v.listed = values := by simp
    rw [hlisted]
    cases v with
    | null =>
      refine iff_of_false nofun ?_
      rintro ⟨rfl, -, hall⟩
      exact absurd (hall .null List.mem_cons_self) (by decide)
    | array items => exact hrest items
    | bool b => exact hrest [.bool b]
    | number n => exact hrest [.number n]
    | string text => exact hrest [.string text]
    | object fields => exact hrest [.object fields]

/-- All values are strings where they are those of some texts. -/
private theorem allStrings_ok_iff {fault : FilterFault} {values : List Json}
    {texts : List String} : l.allStrings fault values = .ok texts ↔ values = texts.map .string := by
  have htexts : values.mapM Json.text? = some texts ↔ values = texts.map .string := by
    induction values generalizing texts with
    | nil => cases texts <;> simp
    | cons v rest ih =>
      rw [List.mapM_cons, Option.bind_eq_bind, Option.bind_eq_some_iff]
      constructor
      · rintro ⟨text, htext, h⟩
        obtain ⟨others, hothers, h⟩ := Option.bind_eq_some_iff.1 h
        obtain rfl := Option.some.inj h
        cases v with
        | string s =>
          obtain rfl := Option.some.inj htext
          rw [ih.1 hothers, List.map_cons]
        | _ => cases htext
      · intro h
        obtain ⟨text, others, rfl, rfl, hothers⟩ := List.map_eq_cons_iff.1 h.symm
        exact ⟨text, rfl, Option.bind_eq_some_iff.2 ⟨others, ih.2 hothers.symm, rfl⟩⟩
  rw [allStrings, ← htexts]
  split
  · rename_i found hfound
    rw [hfound, Except.ok.injEq, Option.some.injEq]
  · rename_i hnone
    rw [hnone]
    exact iff_of_false nofun nofun

/-- A value is a list of dates where it lists texts only. -/
private theorem dateStrings_ok_iff {texts : List String} : l.dateStrings = .ok texts ↔
    ∃ v, l.value = some v ∧ v.listed = texts.map .string := by
  unfold dateStrings
  cases l.value with
  | none => exact iff_of_false nofun nofun
  | some v =>
    have hlisted : (∃ w, some v = some w ∧ w.listed = texts.map .string) ↔
        v.listed = texts.map .string := by
      simp
    rw [hlisted]
    cases v with
    | array items => exact allStrings_ok_iff
    | _ => rcases texts with _ | ⟨text, _ | ⟨text', texts⟩⟩ <;> simp [Json.listed]

/-! ## The check -/

/-- A leaf passes its check with a payload that its operator takes and that holds its value. The
values of a comparison are scalars. -/
theorem check_ok_iff {payload : Payload} : l.check = .ok payload ↔
    l.operator.Takes payload ∧ payload.Reads l.value ∧ payload.Comparable := by
  constructor
  · -- The shape that the operator wants says which steps have succeeded.
    intro h
    unfold check at h
    split at h
    · rename_i hshape
      split_ifs at h with hvalue
      obtain rfl := Except.ok.inj h
      rw [Option.isNone_iff_eq_none.1 hvalue]
      exact ⟨.none hshape, .none, trivial⟩
    · rename_i hshape
      obtain ⟨values, hvalues, h⟩ := exists_ok_of_bind h
      obtain rfl := Except.ok.inj h
      obtain ⟨⟨v, hv, rfl⟩, hne, hscalar⟩ := scalars_ok_iff.1 hvalues
      rw [hv]
      exact ⟨.values hshape hne, .values, hscalar⟩
    · rename_i hshape
      obtain ⟨values, hvalues, h⟩ := exists_ok_of_bind h
      obtain ⟨texts, htexts, h⟩ := exists_ok_of_bind h
      obtain rfl := Except.ok.inj h
      obtain ⟨⟨v, hv, rfl⟩, hne, -⟩ := scalars_ok_iff.1 hvalues
      have hlisted := allStrings_ok_iff.1 htexts
      rw [hv]
      exact ⟨.strings hshape (by simpa [hlisted] using hne), .strings hlisted, trivial⟩
    · rename_i hshape
      obtain ⟨texts, htexts, h⟩ := exists_ok_of_bind h
      obtain ⟨v, hv, hlisted⟩ := dateStrings_ok_iff.1 htexts
      rw [hv]
      split at h
      · obtain rfl := Except.ok.inj h
        exact ⟨.date hshape, .date hlisted, trivial⟩
      · cases h
    · rename_i hshape
      obtain ⟨texts, htexts, h⟩ := exists_ok_of_bind h
      obtain ⟨v, hv, hlisted⟩ := dateStrings_ok_iff.1 htexts
      rw [hv]
      split at h
      · obtain rfl := Except.ok.inj h
        exact ⟨.bounds hshape, .bounds hlisted, trivial⟩
      · obtain rfl := Except.ok.inj h
        exact ⟨.phrase hshape, .phrase hlisted, trivial⟩
      · cases h
    · rename_i hshape
      split at h
      · cases h
      · rename_i v hv
        split at h
        · rename_i query hquery
          obtain rfl := Except.ok.inj h
          rw [hv]
          exact ⟨.query hshape, .query hquery, trivial⟩
        · cases h
  · -- The payload says which shape the operator wants, and so which steps there are.
    rintro ⟨htakes, hreads, hscalar⟩
    unfold check
    generalize hvalue : l.value = value at hreads
    cases htakes with
    | none hshape =>
      cases hreads
      rw [hshape]
      rfl
    | values hshape hne =>
      cases hreads with
      | @values v =>
        rw [hshape]
        exact bind_eq_ok_iff.2 ⟨_, scalars_ok_iff.2 ⟨⟨v, hvalue, rfl⟩, hne, hscalar⟩, rfl⟩
    | strings hshape hne =>
      cases hreads with
      | @strings v texts hlisted =>
        have hvalues : l.scalars = .ok v.listed := by
          refine scalars_ok_iff.2 ⟨⟨v, hvalue, rfl⟩, by simpa [hlisted] using hne, ?_⟩
          rw [hlisted, List.forall_mem_map]
          exact fun _ _ => rfl
        rw [hshape]
        exact bind_eq_ok_iff.2 ⟨_, hvalues, bind_eq_ok_iff.2 ⟨_, allStrings_ok_iff.2 hlisted, rfl⟩⟩
    | @date text hshape =>
      cases hreads with
      | @date v _ hlisted =>
        rw [hshape]
        exact bind_eq_ok_iff.2 ⟨[text], dateStrings_ok_iff.2 ⟨v, hvalue, hlisted⟩, rfl⟩
    | @phrase text hshape =>
      cases hreads with
      | @phrase v _ hlisted =>
        rw [hshape]
        exact bind_eq_ok_iff.2 ⟨[text], dateStrings_ok_iff.2 ⟨v, hvalue, hlisted⟩, rfl⟩
    | @bounds first last hshape =>
      cases hreads with
      | @bounds v _ _ hlisted =>
        rw [hshape]
        exact bind_eq_ok_iff.2 ⟨[first, last], dateStrings_ok_iff.2 ⟨v, hvalue, hlisted⟩, rfl⟩
    | query hshape =>
      cases hreads with
      | @query v _ hquery =>
        rw [hshape]
        simp only [hquery]

/-- A leaf that passes its check holds a payload of the shape that its operator takes. -/
theorem takes_of_check {payload : Payload} (h : l.check = .ok payload) :
    l.operator.Takes payload := (check_ok_iff.1 h).1

/-- The payload of a leaf that passes its check is read from its value. -/
theorem reads_of_check {payload : Payload} (h : l.check = .ok payload) :
    payload.Reads l.value := (check_ok_iff.1 h).2.1

/-- A nested query is read from the value of its leaf. -/
theorem exists_value_of_check {query : Query} (h : l.check = .ok (.query query)) :
    ∃ v, l.value = some v ∧ Query.decode? v = some query := by
  have hreads := reads_of_check h
  generalize l.value = value at hreads
  cases hreads with
  | @query v _ hquery => exact ⟨v, rfl, hquery⟩

/-- The payload of a leaf depends on its value and on the shape that its operator wants. -/
theorem check_congr {l' : FilterLeaf} {payload : Payload} (h : l.check = .ok payload)
    (hshape : l.operator.shape = l'.operator.shape) (hvalue : l.value = l'.value) :
    l'.check = .ok payload := by
  obtain ⟨htakes, hreads, hscalar⟩ := check_ok_iff.1 h
  exact check_ok_iff.2 ⟨htakes.congr hshape, hvalue ▸ hreads, hscalar⟩

end FilterLeaf

end MetricLayer
