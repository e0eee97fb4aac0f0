import MetricLayer.Json.Basic
import Mathlib.Data.List.Basic
import Mathlib.Data.String.Basic

/-!
# Canonical JSON values

In a canonical value the keys of every object are sorted and different from each other. Canonical
values are those that `Json.canonical` leaves as they are, and whatever it gives is canonical.
-/

namespace MetricLayer.Json

/-- Fields in canonical form: keys are strictly increasing, and values are canonical. -/
structure CanonicalFields (fields : List (String × Json)) : Prop where
  keys : (fields.map (·.1)).Pairwise (· < ·)
  values : ∀ field ∈ fields, field.2.canonical = field.2

theorem canonicalFields_nil : CanonicalFields [] := ⟨List.Pairwise.nil, nofun⟩

/-- An inserted field is there beside those that were there. -/
private theorem mem_insertField {key : String} {value : Json} {fields : List (String × Json)}
    {field : String × Json} (h : field ∈ insertField key value fields) :
    field = (key, value) ∨ field ∈ fields := by
  induction fields with
  | nil => exact .inl (List.mem_singleton.1 h)
  | cons first rest ih =>
    rw [insertField] at h
    split_ifs at h
    · exact List.mem_cons.1 h
    · exact (List.mem_cons.1 h).imp_right (List.mem_cons_of_mem _)
    · rcases List.mem_cons.1 h with rfl | h
      · exact .inr List.mem_cons_self
      · exact (ih h).imp_right (List.mem_cons_of_mem _)

/-- A field with a canonical value put at its place keeps fields canonical. -/
theorem CanonicalFields.insertField {fields : List (String × Json)} (h : CanonicalFields fields)
    (key : String) {value : Json} (hvalue : value.canonical = value) :
    CanonicalFields (insertField key value fields) := by
  refine ⟨?_, fun field hfield => ?_⟩
  · have hkeys := h.keys
    clear h
    induction fields with
    | nil => simp [Json.insertField]
    | cons first rest ih =>
      obtain ⟨k, v⟩ := first
      obtain ⟨hfirst, hrest⟩ := List.pairwise_cons.1 hkeys
      rw [Json.insertField]
      split_ifs with hlt heq
      · -- The new key comes before the first one, and so before all.
        refine List.pairwise_cons.2 ⟨fun other hother => ?_, hkeys⟩
        rcases List.mem_cons.1 hother with rfl | hother
        · exact hlt
        · exact hlt.trans (hfirst other hother)
      · exact heq ▸ hkeys
      · refine List.pairwise_cons.2 ⟨fun other hother => ?_, ih hrest⟩
        obtain ⟨field, hfield, rfl⟩ := List.mem_map.1 hother
        rcases mem_insertField hfield with rfl | hfield
        · exact lt_of_le_of_ne (not_lt.1 hlt) (Ne.symm heq)
        · exact hfirst _ (List.mem_map_of_mem hfield)
  · rcases mem_insertField hfield with rfl | hfield
    · exact hvalue
    · exact h.values field hfield

/-- A field whose key comes after all others is put at the end. -/
private theorem insertField_eq_append {key : String} {value : Json} {fields : List (String × Json)}
    (h : ∀ field ∈ fields, field.1 < key) :
    insertField key value fields = fields ++ [(key, value)] := by
  induction fields with
  | nil => rfl
  | cons first rest ih =>
    obtain ⟨hfirst, hrest⟩ := List.forall_mem_cons.1 h
    rw [insertField, if_neg (lt_asymm hfirst), if_neg (ne_of_gt hfirst), ih hrest]
    rfl

/-- Adding canonical fields behind smaller keys changes nothing. -/
private theorem canonicalFields_append {sorted fields : List (String × Json)}
    (h : CanonicalFields (sorted ++ fields)) :
    canonicalFields sorted fields = sorted ++ fields := by
  induction fields generalizing sorted with
  | nil => rw [canonicalFields, List.append_nil]
  | cons first rest ih =>
    obtain ⟨key, value⟩ := first
    -- All fields that are there come before the next one, so it goes to the end.
    have hbefore : ∀ field ∈ sorted, field.1 < key := by
      have hkeys := h.keys
      rw [List.map_append, List.pairwise_append] at hkeys
      exact fun field hfield => hkeys.2.2 _ (List.mem_map_of_mem hfield) _ (by simp)
    have hvalue : value.canonical = value := h.values (key, value) (by simp)
    rw [canonicalFields, hvalue, insertField_eq_append hbefore, ih (by simpa using h)]
    simp

/-- Canonical fields are left as they are. -/
theorem CanonicalFields.canonicalFields_eq {fields : List (String × Json)}
    (h : CanonicalFields fields) : canonicalFields [] fields = fields :=
  canonicalFields_append h

mutual

/-- The canonical form of a value is canonical. -/
theorem canonical_canonical : (v : Json) → v.canonical.canonical = v.canonical
  | .null | .bool _ | .number _ | .string _ => rfl
  | .array items => congrArg Json.array (canonicalItems_canonicalItems items)
  | .object fields =>
    congrArg Json.object
      (canonicalFields_canonicalFields canonicalFields_nil fields).canonicalFields_eq

/-- The canonical forms of items are canonical. -/
theorem canonicalItems_canonicalItems : (items : List Json) →
    canonicalItems (canonicalItems items) = canonicalItems items
  | [] => rfl
  | item :: rest =>
    congrArg₂ List.cons (canonical_canonical item) (canonicalItems_canonicalItems rest)

/-- Fields that are added to canonical ones make canonical fields. -/
theorem canonicalFields_canonicalFields {sorted : List (String × Json)}
    (h : CanonicalFields sorted) : (fields : List (String × Json)) →
      CanonicalFields (canonicalFields sorted fields)
  | [] => h
  | (key, value) :: rest =>
    canonicalFields_canonicalFields (h.insertField key (canonical_canonical value)) rest

end

/-- Only the null has a null as its canonical form. -/
theorem canonical_eq_null {v : Json} : v.canonical = .null ↔ v = .null := by
  cases v <;> simp [canonical]

/-- Items are put in canonical form one by one. -/
theorem canonicalItems_eq_map (items : List Json) : canonicalItems items = items.map canonical := by
  induction items with
  | nil => rfl
  | cons item rest ih => rw [canonicalItems, ih, List.map_cons]

/-! ## Depth -/

/-- An inserted field adds no more than its own depth. -/
private theorem depthFields_insertField_le (key : String) (value : Json)
    (fields : List (String × Json)) :
    depthFields (insertField key value fields) ≤ max value.depth (depthFields fields) := by
  induction fields with
  | nil => simp [insertField, depthFields]
  | cons first rest ih =>
    obtain ⟨k, v⟩ := first
    rw [insertField]
    split_ifs <;> simp only [depthFields] <;> omega

mutual

/-- Sorting keys nests nothing deeper. -/
theorem depth_canonical_le : (v : Json) → v.canonical.depth ≤ v.depth
  | .null | .bool _ | .number _ | .string _ => Nat.le_refl _
  | .array items => Nat.succ_le_succ (depthItems_canonicalItems_le items)
  | .object fields => by
    have := depthFields_canonicalFields_le [] fields
    simp only [canonical, depth]
    simp only [depthFields] at this
    omega

/-- Items in canonical form are no deeper. -/
private theorem depthItems_canonicalItems_le : (items : List Json) →
    depthItems (canonicalItems items) ≤ depthItems items
  | [] => Nat.le_refl _
  | item :: rest => by
    have hitem := depth_canonical_le item
    have hrest := depthItems_canonicalItems_le rest
    simp only [canonicalItems, depthItems]
    omega

/-- Fields in canonical form are no deeper. -/
private theorem depthFields_canonicalFields_le (sorted : List (String × Json)) :
    (fields : List (String × Json)) →
      depthFields (canonicalFields sorted fields) ≤ max (depthFields sorted) (depthFields fields)
  | [] => by
    rw [canonicalFields]
    omega
  | (key, value) :: rest => by
    have hvalue := depth_canonical_le value
    have hrest := depthFields_canonicalFields_le (insertField key value.canonical sorted) rest
    have hinsert := depthFields_insertField_le key value.canonical sorted
    simp only [canonicalFields, depthFields]
    omega

end

/-! ## Fields of the canonical form -/

@[simp] theorem field?_nil (k : String) : field? k [] = none := rfl

/-- The first field with a key counts. -/
theorem field?_cons (k key : String) (value : Json) (rest : List (String × Json)) :
    field? k ((key, value) :: rest) = if k = key then some value else field? k rest := by
  rw [field?, List.lookup_cons]
  by_cases h : k = key
  · simp [h]
  · rw [beq_false_of_ne h, if_neg h, field?]

/-- An inserted field is found by its key, all other ones as before. -/
private theorem field?_insertField (k key : String) (value : Json) (fields : List (String × Json)) :
    field? k (insertField key value fields) = if k = key then some value else field? k fields := by
  induction fields with
  | nil => rw [insertField, field?_cons]
  | cons first rest ih =>
    obtain ⟨k', v⟩ := first
    rw [insertField]
    split_ifs with hlt heq <;> grind [field?_cons]

/-- No field is found for a key that is not there. -/
private theorem field?_eq_none {k : String} {fields : List (String × Json)}
    (h : k ∉ fields.map (·.1)) : field? k fields = none :=
  List.lookup_eq_none_iff.2 fun field hfield => by
    simpa using fun he => h (List.mem_map.2 ⟨field, hfield, he.symm⟩)

/-- Fields that are sorted in one by one are found as before, behind those that come later. -/
private theorem field?_canonicalFields_sorted {k : String} {sorted fields : List (String × Json)}
    (h : (fields.map (·.1)).Nodup) :
    field? k (canonicalFields sorted fields) =
      ((field? k fields).map canonical).or (field? k sorted) := by
  induction fields generalizing sorted with
  | nil => rw [canonicalFields]; rfl
  | cons first rest ih =>
    obtain ⟨key, value⟩ := first
    obtain ⟨hkey, hrest⟩ := List.nodup_cons.1 h
    rw [canonicalFields, ih hrest, field?_insertField, field?_cons]
    by_cases hk : k = key
    · -- The key is not repeated, so no later field replaces this one.
      rw [if_pos hk, if_pos hk, field?_eq_none (hk ▸ hkey)]
      rfl
    · rw [if_neg hk, if_neg hk]

/-- Where no key is repeated, a field of the canonical form is the canonical form of the field. -/
theorem field?_canonicalFields {fields : List (String × Json)} (h : (fields.map (·.1)).Nodup)
    (k : String) : field? k (canonicalFields [] fields) = (field? k fields).map canonical := by
  rw [field?_canonicalFields_sorted h]
  exact Option.or_none

/-- Sorting fields brings no new keys. -/
theorem mem_keys_of_mem_canonicalFields {k : String} {sorted fields : List (String × Json)}
    (h : k ∈ (canonicalFields sorted fields).map (·.1)) :
    k ∈ sorted.map (·.1) ∨ k ∈ fields.map (·.1) := by
  induction fields generalizing sorted with
  | nil => exact .inl (by rwa [canonicalFields] at h)
  | cons first rest ih =>
    rcases ih h with h | h
    · obtain ⟨field, hfield, rfl⟩ := List.mem_map.1 h
      rcases mem_insertField hfield with rfl | hfield
      · exact .inr List.mem_cons_self
      · exact .inl (List.mem_map_of_mem hfield)
    · exact .inr (List.mem_cons_of_mem _ h)

end MetricLayer.Json
