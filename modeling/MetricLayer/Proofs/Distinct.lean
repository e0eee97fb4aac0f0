import MetricLayer.Distinct
import Mathlib.Data.List.Forall2
import Mathlib.Data.List.Induction
import Mathlib.Data.List.Nodup

/-!
# Collecting without repetition

What holds of a list to which entries are added unless one with the same key is already there. The
keys that are collected from a list divide it into classes.
-/

namespace MetricLayer

section Keys

variable {α β : Type} [DecidableEq β] {key : α → β} {found entries : List α} {a : α}

/-- What is added to a list without repetition was in the list or among the entries. -/
theorem mem_or_mem_of_mem_addAllNewBy (h : a ∈ addAllNewBy key found entries) :
    a ∈ found ∨ a ∈ entries := by
  induction entries generalizing found with
  | nil => exact .inl h
  | cons entry rest ih =>
    -- The first entry may have been added to the list from which the rest starts.
    rcases ih h with hfound | hrest
    · rw [addNewBy] at hfound
      split_ifs at hfound
      · exact .inl hfound
      · rcases List.mem_append.1 hfound with hfound | hentry
        · exact .inl hfound
        · exact .inr (List.mem_cons.2 (.inl (List.mem_singleton.1 hentry)))
    · exact .inr (List.mem_cons_of_mem _ hrest)

/-- What was there stays in front. -/
theorem prefix_addAllNewBy (key : α → β) (found entries : List α) :
    found.IsPrefix (addAllNewBy key found entries) := by
  induction entries generalizing found with
  | nil => exact List.prefix_refl found
  | cons entry rest ih =>
    have hentry : found.IsPrefix (addNewBy key found entry) := by
      rw [addNewBy]
      split_ifs
      · exact List.prefix_refl found
      · exact List.prefix_append found [entry]
    exact hentry.trans (ih _)

/-- Keys stay different from each other. -/
theorem nodup_keys_addAllNewBy (hfound : (found.map key).Nodup) (entries : List α) :
    ((addAllNewBy key found entries).map key).Nodup := by
  induction entries generalizing found with
  | nil => exact hfound
  | cons entry rest ih =>
    refine ih ?_
    rw [addNewBy]
    split_ifs with hmem
    · exact hfound
    · rw [List.map_append, List.nodup_append]
      refine ⟨hfound, by simp, ?_⟩
      simpa using fun x hx => ne_of_mem_of_not_mem (List.mem_map_of_mem hx) hmem

/-- The key of every entry is there in the end. -/
theorem mem_keys_addAllNewBy {entry : α} (h : entry ∈ found ∨ entry ∈ entries) :
    key entry ∈ (addAllNewBy key found entries).map key := by
  induction entries generalizing found with
  | nil => exact List.mem_map_of_mem (h.resolve_right (by simp))
  | cons first rest ih =>
    have hfirst : ∀ x ∈ found, x ∈ addNewBy key found first := by
      intro x hx
      rw [addNewBy]
      split_ifs
      · exact hx
      · exact List.mem_append_left _ hx
    rcases h with h | h
    · exact ih (.inl (hfirst entry h))
    · rcases List.mem_cons.1 h with rfl | h
      · -- The entry itself is added, or one with its key was there.
        have hkey : key entry ∈ (addNewBy key found entry).map key := by
          rw [addNewBy]
          split_ifs with hmem
          · exact hmem
          · simp
        exact ((prefix_addAllNewBy key _ rest).map key).subset hkey
      · exact ih (.inr h)

/-- Lists stay related entry by entry when entries with new keys are added to both. -/
theorem forall₂_addAllNewBy {γ : Type} {P : α → γ → Prop} {key' : γ → β}
    (hkey : ∀ a b, P a b → key a = key' b) {found' entries' : List γ}
    (hfound : List.Forall₂ P found found') (hentries : List.Forall₂ P entries entries') :
    List.Forall₂ P (addAllNewBy key found entries) (addAllNewBy key' found' entries') := by
  induction hentries generalizing found found' with
  | nil => exact hfound
  | cons hentry _ ih =>
    refine ih ?_
    -- Related entries have the same key, so what is new on one side is new on the other.
    have hkeys : found.map key = found'.map key' := by
      rw [← List.forall₂_eq_eq_eq, List.forall₂_map_left_iff, List.forall₂_map_right_iff]
      exact hfound.imp hkey
    rw [addNewBy, addNewBy, hkey _ _ hentry, hkeys]
    split_ifs
    · exact hfound
    · exact List.rel_append hfound (.cons hentry .nil)

/-- An entry is found by its key where no two entries have the same. -/
theorem find?_key_eq_some (hnodup : (entries.map key).Nodup) (ha : a ∈ entries) :
    entries.find? (fun entry => key entry = key a) = some a := by
  cases hfound : entries.find? fun entry => key entry = key a with
  | none => simpa using List.find?_eq_none.1 hfound a ha
  | some entry =>
    have hkey : key entry = key a := by simpa using List.find?_some hfound
    rw [List.inj_on_of_nodup_map hnodup (List.mem_of_find?_eq_some hfound) ha hkey]

end Keys

section Entries

variable {α : Type} [DecidableEq α] {found entries : List α} {a : α}

/-- The entries are those that were there and those that were added. -/
theorem mem_addAllNew : a ∈ addAllNew found entries ↔ a ∈ found ∨ a ∈ entries := by
  refine ⟨mem_or_mem_of_mem_addAllNewBy, fun h => ?_⟩
  have hkeys : id a ∈ (addAllNewBy id found entries).map id := mem_keys_addAllNewBy h
  rwa [List.map_id] at hkeys

/-- Adding what is new keeps entries apart. -/
theorem nodup_addAllNew (hfound : found.Nodup) (entries : List α) :
    (addAllNew found entries).Nodup := by
  have hkeys : ((addAllNewBy id found entries).map id).Nodup :=
    nodup_keys_addAllNewBy (by rwa [List.map_id]) entries
  rwa [List.map_id] at hkeys

/-- Entries that are already there change nothing. -/
theorem addAllNew_eq_self (h : ∀ a ∈ entries, a ∈ found) : addAllNew found entries = found := by
  induction entries with
  | nil => rfl
  | cons a rest ih =>
    obtain ⟨ha, hrest⟩ := List.forall_mem_cons.1 h
    change addAllNew (addNewBy id found a) rest = found
    rw [addNewBy, if_pos (by simpa using ha)]
    exact ih hrest

/-- A new entry comes last. -/
theorem addAllNew_pair {b : α} (ha : a ∈ found) (hb : b ∉ found) :
    addAllNew found [a, b] = found ++ [b] := by
  have hfirst : addNewBy id found a = found := if_pos (by simpa using ha)
  change addNewBy id (addNewBy id found a) b = found ++ [b]
  rw [hfirst, addNewBy, if_neg (by simpa using hb)]

/-- Lists may be added one after the other. -/
theorem addAllNew_append (found entries more : List α) :
    addAllNew found (entries ++ more) = addAllNew (addAllNew found entries) more :=
  List.foldl_append

/-- Entries may be collected on their own before they are added. -/
theorem addAllNew_addAllNew (found collected entries : List α) :
    addAllNew found (addAllNew collected entries) = addAllNew found (collected ++ entries) := by
  induction entries generalizing collected with
  | nil => rw [List.append_nil]; rfl
  | cons a rest ih =>
    refine (ih (addNewBy id collected a)).trans ?_
    rw [addNewBy]
    split_ifs with hmem
    · -- A repeated entry is among those that are added before it.
      have ha : ∀ b ∈ [a], b ∈ addAllNew found collected := by
        simpa [mem_addAllNew] using Or.inr (by simpa using hmem)
      rw [← List.singleton_append, addAllNew_append, addAllNew_append, addAllNew_append,
        addAllNew_eq_self ha]
    · rw [List.append_assoc, List.singleton_append]

/-- Leaving out repetitions loses no entry. -/
@[simp]
theorem mem_distinct : a ∈ distinct entries ↔ a ∈ entries := by
  simp [distinct, mem_addAllNew]

/-- No entry is left twice. -/
theorem nodup_distinct (entries : List α) : (distinct entries).Nodup :=
  nodup_addAllNew List.nodup_nil entries

/-- A new entry comes after the first one. -/
theorem addNewBy_cons_of_ne {b : α} (h : b ≠ a) :
    addNewBy id (b :: found) a = b :: addNewBy id found a := by
  rw [addNewBy, addNewBy]
  by_cases hmem : a ∈ found <;> simp [hmem, h.symm]

theorem distinct_eq_nil_iff : distinct entries = [] ↔ entries = [] := by
  simp only [List.eq_nil_iff_forall_not_mem, mem_distinct]

/-- The first entry stays the first one. -/
theorem head?_distinct (entries : List α) : (distinct entries).head? = entries.head? := by
  cases entries with
  | nil => rfl
  | cons a rest =>
    obtain ⟨others, hothers⟩ := prefix_addAllNewBy id [a] rest
    have hfirst : distinct (a :: rest) = [a] ++ others := hothers.symm
    rw [hfirst]
    rfl

/-- A last entry is kept where it is new. -/
theorem distinct_concat (entries : List α) (a : α) :
    distinct (entries ++ [a]) = addNewBy id (distinct entries) a :=
  addAllNew_append [] entries [a]

/-- Several lists may be collected one by one before they are collected together. -/
theorem distinct_flatMap_distinct {β : Type} (f : β → List α) (bs : List β) :
    distinct (bs.flatMap fun b => distinct (f b)) = distinct (bs.flatMap f) := by
  have h (found : List α) :
      addAllNew found (bs.flatMap fun b => distinct (f b)) = addAllNew found (bs.flatMap f) := by
    induction bs generalizing found with
    | nil => rfl
    | cons b rest ih =>
      rw [List.flatMap_cons, List.flatMap_cons, addAllNew_append, addAllNew_append, ih, distinct,
        addAllNew_addAllNew, List.nil_append]
  exact h []

/-- The first entry with some property is found where repetitions are left out. -/
theorem find?_distinct (p : α → Bool) (entries : List α) :
    (distinct entries).find? p = entries.find? p := by
  have h (found : List α) : (addAllNew found entries).find? p = (found ++ entries).find? p := by
    induction entries generalizing found with
    | nil => rw [List.append_nil]; rfl
    | cons a rest ih =>
      refine (ih (addNewBy id found a)).trans ?_
      rw [addNewBy]
      split_ifs with hmem
      · -- A repeated entry is found at its first place, or not at all.
        rw [List.find?_append, List.find?_append, List.find?_cons]
        cases ha : p a with
        | false => rfl
        | true =>
          obtain ⟨x, hx⟩ := Option.isSome_iff_exists.1
            (List.find?_isSome.2 ⟨a, by simpa using hmem, ha⟩)
          rw [hx]
          rfl
      · rw [List.append_assoc]
        rfl
  exact h []

end Entries

section Classes

variable {α β : Type} [DecidableEq β] (key : α → β)

/-- The first entries with their keys stand in the order of the list. -/
theorem sublist_firsts (entries : List α) :
    ((distinct (entries.map key)).filterMap fun k => entries.find? (key · = k)).Sublist
      entries := by
  -- By induction from the end, where an entry is new if none before it has its key.
  induction entries using List.reverseRecOn with
  | nil => exact .slnil
  | append_singleton entries a ih =>
    have hold : ∀ k ∈ distinct (entries.map key),
        (entries ++ [a]).find? (key · = k) = entries.find? (key · = k) := by
      intro k hk
      obtain ⟨b, hb, rfl⟩ := List.mem_map.1 (mem_distinct.1 hk)
      have hfound : (entries.find? (key · = key b)).isSome := List.find?_isSome.2 ⟨b, hb, by simp⟩
      rw [List.find?_append, Option.or_of_isSome hfound]
    rw [List.map_append, List.map_singleton, distinct_concat, addNewBy]
    split_ifs
    · rw [List.filterMap_congr hold]
      exact ih.trans (List.sublist_append_left ..)
    · rename_i hnew
      have hnone : entries.find? (key · = key a) = none := by
        refine List.find?_eq_none.2 fun b hb hkey => hnew ?_
        rw [List.map_id, id_eq, mem_distinct]
        exact List.mem_map.2 ⟨b, hb, of_decide_eq_true hkey⟩
      rw [List.filterMap_append, List.filterMap_congr hold]
      refine ih.append ?_
      simp [List.find?_append, hnone]

/-- Entries are divided by their keys. -/
theorem perm_flatMap_filter {keys : List β} (hnodup : keys.Nodup) {entries : List α}
    (h : ∀ a ∈ entries, key a ∈ keys) :
    (keys.flatMap fun k => entries.filter (key · = k)).Perm entries := by
  induction keys generalizing entries with
  | nil =>
    obtain rfl := List.eq_nil_iff_forall_not_mem.2 fun a ha => List.not_mem_nil (h a ha)
    exact .refl _
  | cons k rest ih =>
    obtain ⟨hk, hrest⟩ := List.nodup_cons.1 hnodup
    -- The other keys are those of the other entries.
    have hothers : ∀ k' ∈ rest, entries.filter (key · = k') =
        (entries.filter (key · ≠ k)).filter (key · = k') := by
      intro k' hk'
      have hne : k' ≠ k := ne_of_mem_of_not_mem hk' hk
      rw [List.filter_filter]
      refine List.filter_congr fun a _ => ?_
      by_cases ha : key a = k' <;> simp [ha, hne]
    have hkeys : ∀ a ∈ entries.filter (key · ≠ k), key a ∈ rest := by
      intro a ha
      obtain ⟨hmem, hne⟩ := List.mem_filter.1 ha
      exact List.mem_of_ne_of_mem (of_decide_eq_true hne) (h a hmem)
    have hdivided : (entries.filter (key · = k) ++ entries.filter (key · ≠ k)).Perm entries := by
      simpa using List.filter_append_perm (key · = k) entries
    rw [List.flatMap_cons, List.flatMap_congr hothers]
    exact ((ih hrest hkeys).append_left _).trans hdivided

end Classes

end MetricLayer
