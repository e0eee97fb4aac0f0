import MetricLayer.Schema.Error
import Mathlib.Data.List.Forall2

/-!
# Results that agree

Two operations that may fail agree on a relation when their values are related wherever both
succeed. Agreement is what a comparison of two compiles keeps from step to step: nothing is said
where one of them fails.

A `MonadRelation` compares the computations of two monads. Agreement is one; others say that a value
on the left is one on the right (`transferRelation`), or that the outcomes are the same, be they
values or errors (`outcomeRelation`).
-/

namespace MetricLayer

variable {ε α β γ δ : Type} {P : α → β → Prop} {Q : γ → δ → Prop}

/-- Where both results are values, they are related. -/
def Agree (P : α → β → Prop) (x : Except ε α) (y : Except ε β) : Prop :=
  ∀ a b, x = .ok a → y = .ok b → P a b

/-- Where a sequence of two operations succeeds, both succeed. -/
theorem exists_ok_of_bind {x : Except ε α} {f : α → Except ε γ} {c : γ}
    (h : x >>= f = .ok c) : ∃ a, x = .ok a ∧ f a = .ok c := by
  cases x with
  | error e => cases h
  | ok a => exact ⟨a, rfl, h⟩

/-- A sequence of two operations succeeds where both do. -/
theorem bind_eq_ok_iff {x : Except ε α} {f : α → Except ε γ} {c : γ} :
    x >>= f = .ok c ↔ ∃ a, x = .ok a ∧ f a = .ok c := by
  refine ⟨exists_ok_of_bind, ?_⟩
  rintro ⟨a, rfl, h⟩
  exact h

/-- Where a sequence of two operations fails, one of them fails. -/
theorem error_or_exists_of_bind {x : Except ε α} {f : α → Except ε γ} {e : ε}
    (h : x >>= f = .error e) : x = .error e ∨ ∃ a, x = .ok a ∧ f a = .error e := by
  cases x with
  | error e' => exact .inl (congrArg _ (Except.error.inj h))
  | ok a => exact .inr ⟨a, rfl, h⟩

/-- An operation with a check succeeds where the check passes and what follows it does. -/
theorem check_eq_ok_iff {c : Prop} [Decidable c] {e : ε} {f : Unit → Except ε α} {a : α} :
    (if c then throw e >>= f else f ()) = .ok a ↔ ¬c ∧ f () = .ok a := by
  split_ifs with hc
  · exact ⟨nofun, fun h => absurd hc h.1⟩
  · exact (and_iff_right hc).symm

/-- Where an operation with a check succeeds, the check has passed. -/
theorem not_and_ok_of_check {c : Prop} [Decidable c] {e : ε} {f : Unit → Except ε α} {a : α}
    (h : (if c then throw e >>= f else f ()) = .ok a) : ¬c ∧ f () = .ok a :=
  check_eq_ok_iff.1 h

/-- What is computed from the value of an operation shows that there is one. -/
theorem exists_ok_of_toOption_map {x : Except ε α} {f : α → β} {b : β}
    (h : x.toOption.map f = some b) : ∃ a, x = .ok a ∧ f a = b := by
  cases x with
  | error e => cases h
  | ok a => exact ⟨a, rfl, Option.some.inj h⟩

/-- What depends on the value of an operation shows that there is one. -/
theorem exists_ok_of_toOption_bind {x : Except ε α} {f : α → Option β} {b : β}
    (h : x.toOption >>= f = some b) : ∃ a, x = .ok a ∧ f a = some b := by
  cases x with
  | error e => cases h
  | ok a => exact ⟨a, rfl, h⟩

/-- Rewording an error does not make an operation succeed. -/
theorem ok_of_mapError {ε' : Type} {x : Except ε α} {f : ε → ε'} {a : α}
    (h : x.mapError f = .ok a) : x = .ok a := by
  cases x with
  | error e => cases h
  | ok b => exact congrArg _ (Except.ok.inj h)

/-- Every right entry of two related lists is related to a left one. -/
theorem exists_mem_of_forall₂ {as : List α} {bs : List β} (h : List.Forall₂ P as bs) {b : β}
    (hb : b ∈ bs) : ∃ a ∈ as, P a b := by
  induction h with
  | nil => cases hb
  | cons hab _ ih =>
    rcases List.mem_cons.1 hb with rfl | hb
    · exact ⟨_, List.mem_cons_self, hab⟩
    · obtain ⟨a, ha, hab⟩ := ih hb
      exact ⟨a, List.mem_cons_of_mem _ ha, hab⟩

/-- Two lists whose entries have the same values one by one have the same list of values. -/
theorem map_eq_map_of_forall₂ {f : α → γ} {g : β → γ} {as : List α} {bs : List β}
    (h : List.Forall₂ (fun a b => f a = g b) as bs) : as.map f = bs.map g := by
  rwa [← List.forall₂_eq_eq_eq, List.forall₂_map_left_iff, List.forall₂_map_right_iff]

/-- Where a function has a value at every entry, the values that are found are those of the entries,
one by one. -/
theorem forall₂_filterMap {f : α → Option β} {as : List α} (h : ∀ a ∈ as, ∃ b, f a = some b) :
    List.Forall₂ (fun a b => f a = some b) as (as.filterMap f) := by
  induction as with
  | nil => exact .nil
  | cons a rest ih =>
    obtain ⟨⟨b, hb⟩, hrest⟩ := List.forall_mem_cons.1 h
    rw [List.filterMap_cons_some hb]
    exact .cons hb (ih hrest)

/-- The filter goes on from the entries that it has kept so far. -/
private theorem mem_filterAuxM {f : α → Except ε Bool} {as found kept : List α}
    (h : as.filterAuxM f found = .ok kept) : (∀ a ∈ as, ∃ b, f a = .ok b) ∧
      ∀ a, a ∈ kept ↔ a ∈ found ∨ (a ∈ as ∧ f a = .ok true) := by
  induction as generalizing found with
  | nil =>
    obtain rfl := Except.ok.inj h
    simp
  | cons first rest ih =>
    obtain ⟨b, hb, h⟩ := exists_ok_of_bind h
    obtain ⟨hok, hkept⟩ := ih h
    refine ⟨List.forall_mem_cons.2 ⟨⟨b, hb⟩, hok⟩, fun a => ?_⟩
    rw [hkept a]
    -- An entry is kept on account of the first place where it stands or of a later one.
    by_cases ha : a = first
    · subst ha
      cases b <;> simp [hb]
    · cases b <;> simp [ha]

/-- A filter whose test may fail keeps exactly the entries that pass the test. -/
theorem mem_filterM_iff {f : α → Except ε Bool} {as kept : List α} (h : as.filterM f = .ok kept)
    {a : α} (ha : a ∈ as) : ∃ b, f a = .ok b ∧ (a ∈ kept ↔ b = true) := by
  obtain ⟨found, hfound, h⟩ := exists_ok_of_bind h
  obtain rfl := Except.ok.inj h
  obtain ⟨hok, hmem⟩ := mem_filterAuxM hfound
  obtain ⟨b, hb⟩ := hok a ha
  refine ⟨b, hb, ?_⟩
  rw [List.mem_reverse, hmem a]
  simp [ha, hb]

namespace Agree

theorem ok {a : α} {b : β} (h : P a b) : Agree (ε := ε) P (.ok a) (.ok b) := by
  rintro _ _ ⟨⟩ ⟨⟩
  exact h

theorem pure {a : α} {b : β} (h : P a b) : Agree (ε := ε) P (pure a) (pure b) := ok h

theorem error_left {e : ε} {y : Except ε β} : Agree P (.error e) y := nofun

theorem error_right {e : ε} {x : Except ε α} : Agree P x (.error e) := nofun

/-- A result agrees with itself on equality. -/
theorem refl (x : Except ε α) : Agree Eq x x := by
  rintro a b rfl h
  exact Except.ok.inj h

/-- Agreement on a relation is agreement on every weaker one. -/
theorem imp {P' : α → β → Prop} {x : Except ε α} {y : Except ε β} (h : Agree P x y)
    (himp : ∀ a b, P a b → P' a b) : Agree P' x y :=
  fun a b ha hb => himp a b (h a b ha hb)

/-- Operations that agree, followed by operations that agree on related values, agree. -/
theorem bind {x : Except ε α} {y : Except ε β} {f : α → Except ε γ} {g : β → Except ε δ}
    (h : Agree P x y) (hf : ∀ a b, P a b → Agree Q (f a) (g b)) :
    Agree Q (x >>= f) (y >>= g) := by
  cases x with
  | error e => exact error_left
  | ok a =>
    cases y with
    | error e => exact error_right
    | ok b => exact hf a b (h a b rfl rfl)

/-- Steps that agree on related entries agree on lists of them. -/
theorem mapM {f : α → Except ε γ} {g : β → Except ε δ} (hf : ∀ a b, P a b → Agree Q (f a) (g b))
    {as : List α} {bs : List β} (h : List.Forall₂ P as bs) :
    Agree (List.Forall₂ Q) (as.mapM f) (bs.mapM g) := by
  induction h with
  | nil => exact pure .nil
  | cons hab _ ih =>
    rw [List.mapM_cons, List.mapM_cons]
    exact (hf _ _ hab).bind fun c d hcd => ih.bind fun cs ds hrest => pure (.cons hcd hrest)

/-- A list of steps succeeds with the values of its steps. -/
theorem forall₂_of_mapM {f : α → Except ε γ} {as : List α} {cs : List γ}
    (h : as.mapM f = .ok cs) : List.Forall₂ (fun a c => f a = .ok c) as cs := by
  induction as generalizing cs with
  | nil =>
    obtain rfl : [] = cs := Except.ok.inj h
    exact .nil
  | cons a rest ih =>
    rw [List.mapM_cons] at h
    obtain ⟨c, hc, h⟩ := exists_ok_of_bind h
    obtain ⟨cs', hrest, h⟩ := exists_ok_of_bind h
    obtain rfl : c :: cs' = cs := Except.ok.inj h
    exact .cons hc (ih hrest)

/-- A list of steps succeeds, or fails where the first of them does. -/
theorem mapM_ok_or_error (f : α → Except ε γ) (as : List α) :
    (∃ cs, as.mapM f = .ok cs) ∨ ∃ before a after e, as = before ++ a :: after ∧
      (∀ b ∈ before, ∃ c, f b = .ok c) ∧ f a = .error e ∧ as.mapM f = .error e := by
  induction as with
  | nil => exact .inl ⟨[], rfl⟩
  | cons a rest ih =>
    rw [List.mapM_cons]
    cases ha : f a with
    | error e => exact .inr ⟨[], a, rest, e, rfl, nofun, ha, rfl⟩
    | ok c =>
      rcases ih with ⟨cs, hcs⟩ | ⟨before, b, after, e, rfl, hbefore, hb, herror⟩
      · exact .inl ⟨c :: cs, by rw [hcs]; rfl⟩
      · refine .inr ⟨a :: before, b, after, e, rfl, ?_, hb, by rw [herror]; rfl⟩
        exact List.forall_mem_cons.2 ⟨⟨c, ha⟩, hbefore⟩

/-- A list of steps that succeed with a related value where a condition holds, and fail where it does
not: the list fails with the first failing step, or all conditions hold. -/
theorem mapM_cases {f : α → Except ε γ} {C : α → Prop} {R : α → γ → Prop} {failure : α → ε}
    (hf : ∀ a, (¬C a ∧ f a = .error (failure a)) ∨ ∃ c, C a ∧ f a = .ok c ∧ R a c) (as : List α) :
    (∃ before a after, as = before ++ a :: after ∧ (∀ b ∈ before, C b) ∧ ¬C a ∧
      as.mapM f = .error (failure a)) ∨
    ((∀ a ∈ as, C a) ∧ ∃ cs, as.mapM f = .ok cs ∧ List.Forall₂ R as cs) := by
  have hok {a : α} {c : γ} (h : f a = .ok c) : C a ∧ R a c := by
    rcases hf a with ⟨-, herror⟩ | ⟨c', hC, hc', hR⟩
    · rw [herror] at h
      cases h
    · obtain rfl := Except.ok.inj (hc'.symm.trans h)
      exact ⟨hC, hR⟩
  rcases mapM_ok_or_error f as with ⟨cs, hcs⟩ | ⟨before, a, after, e, rfl, hbefore, ha, herror⟩
  · have hsteps := (forall₂_of_mapM hcs).imp fun a c h => hok h
    obtain ⟨hC, hR⟩ := (List.forall₂_and_left _ _).1 hsteps
    exact .inr ⟨hC, cs, hcs, hR⟩
  · rcases hf a with ⟨hnot, hthis⟩ | ⟨c, -, hc, -⟩
    · obtain rfl := Except.error.inj (hthis.symm.trans ha)
      refine .inl ⟨before, a, after, rfl, fun b hb => ?_, hnot, herror⟩
      obtain ⟨c, hc⟩ := hbefore b hb
      exact (hok hc).1
    · rw [hc] at ha
      cases ha

/-- Every value of a list of steps is the value of one of them. -/
theorem exists_of_mem_mapM {f : α → Except ε γ} {as : List α} {cs : List γ}
    (h : as.mapM f = .ok cs) {c : γ} (hc : c ∈ cs) : ∃ a ∈ as, f a = .ok c :=
  exists_mem_of_forall₂ (forall₂_of_mapM h) hc

/-- Steps that agree on each entry of a list agree on the list. -/
theorem mapM_self {f : α → Except ε γ} {g : α → Except ε δ} {as : List α}
    (hf : ∀ a ∈ as, Agree Q (f a) (g a)) : Agree (List.Forall₂ Q) (as.mapM f) (as.mapM g) := by
  have hself : List.Forall₂ (fun a b => a = b ∧ a ∈ as) as as :=
    List.forall₂_same.2 fun a ha => ⟨rfl, ha⟩
  refine mapM ?_ hself
  rintro a _ ⟨rfl, ha⟩
  exact hf a ha

/-- Steps that agree on each entry of a list agree on equality of the lists. -/
theorem mapM_eq {f g : α → Except ε γ} {as : List α} (hf : ∀ a ∈ as, Agree Eq (f a) (g a)) :
    Agree Eq (as.mapM f) (as.mapM g) :=
  (mapM_self hf).imp fun _ _ h => List.forall₂_eq_eq_eq ▸ h

/-- Steps that agree on related states and entries agree when they are repeated. -/
theorem foldlM {f : γ → α → Except ε γ} {g : δ → β → Except ε δ}
    (hf : ∀ c d a b, Q c d → P a b → Agree Q (f c a) (g d b)) {as : List α} {bs : List β}
    (h : List.Forall₂ P as bs) {c : γ} {d : δ} (hcd : Q c d) :
    Agree Q (as.foldlM f c) (bs.foldlM g d) := by
  induction h generalizing c d with
  | nil => exact pure hcd
  | cons hab _ ih =>
    rw [List.foldlM_cons, List.foldlM_cons]
    exact (hf _ _ _ _ hcd hab).bind fun c' d' h' => ih h'

end Agree

/-! ## Computations -/

/-- A relation between the computations of two monads, for each relation between their results. -/
structure MonadRelation (m n : Type → Type) [Monad m] [Monad n] [MonadExcept Error m]
    [MonadExcept Error n] where
  /-- Two computations whose results are related. -/
  rel {α β : Type} (P : α → β → Prop) : m α → n β → Prop
  pure {α β : Type} {P : α → β → Prop} {a : α} {b : β} : P a b → rel P (pure a) (pure b)
  bind {α β γ δ : Type} {P : α → β → Prop} {Q : γ → δ → Prop} {x : m α} {y : n β} {f : α → m γ}
    {g : β → n δ} : rel P x y → (∀ a b, P a b → rel Q (f a) (g b)) → rel Q (x >>= f) (y >>= g)
  throw {α β : Type} {P : α → β → Prop} (e : Error) : rel P (throw e) (throw e)

section Checks

variable {m n : Type → Type} [Monad m] [Monad n] [MonadExcept Error m] [MonadExcept Error n]
  (M : MonadRelation m n) {α β : Type} {P : α → β → Prop} {e : Error} {f : Unit → m α}
  {g : Unit → n β}

/-- What follows a failure does not matter. -/
theorem MonadRelation.throw_bind :
    M.rel P ((MonadExcept.throw e : m Unit) >>= f) ((MonadExcept.throw e : n Unit) >>= g) :=
  M.bind (M.throw (P := fun _ _ => False) e) fun _ _ => False.elim

/-- A check that both computations make. -/
theorem MonadRelation.check {c : Prop} [Decidable c] (h : M.rel P (f ()) (g ())) :
    M.rel P (if c then (MonadExcept.throw e : m Unit) >>= f else f ())
      (if c then (MonadExcept.throw e : n Unit) >>= g else g ()) := by
  split_ifs
  · exact M.throw_bind
  · exact h

end Checks

/-- Results of two compiles, compared where both are values. -/
def resultRelation : MonadRelation Result Result where
  rel := Agree
  pure := Agree.pure
  bind := Agree.bind
  throw _ := Agree.error_left

/-- Where the left result is a value, so is the right one, and they are related. -/
def transferRelation : MonadRelation Result Result where
  rel P x y := ∀ a, x = .ok a → ∃ b, y = .ok b ∧ P a b
  pure := by
    rintro α β P a b h _ ⟨⟩
    exact ⟨b, rfl, h⟩
  bind := by
    intro α β γ δ P Q x y f g hxy hfg c hc
    obtain ⟨a, ha, hc⟩ := exists_ok_of_bind hc
    obtain ⟨b, rfl, hab⟩ := hxy a ha
    exact hfg a b hab c hc
  throw e := nofun

/-- Both results are values that are related, or both are the same error. -/
def outcomeRelation : MonadRelation Result Result where
  rel P x y := (∃ a b, x = .ok a ∧ y = .ok b ∧ P a b) ∨ ∃ e, x = .error e ∧ y = .error e
  pure h := .inl ⟨_, _, rfl, rfl, h⟩
  bind := by
    rintro α β γ δ P Q x y f g (⟨a, b, rfl, rfl, hab⟩ | ⟨e, rfl, rfl⟩) hfg
    · exact hfg a b hab
    · exact .inr ⟨e, rfl, rfl⟩
  throw e := .inr ⟨e, rfl, rfl⟩

/-- Outcomes are equal where their values are. -/
theorem eq_of_outcomeRelation {α : Type} {x y : Result α} (h : outcomeRelation.rel Eq x y) :
    x = y := by
  obtain ⟨a, _, rfl, rfl, rfl⟩ | ⟨e, rfl, rfl⟩ := h <;> rfl

/-- A result has the same outcome as itself where its value is related to itself. -/
theorem outcomeRelation_self {α : Type} {P : α → α → Prop} {x : Result α}
    (h : ∀ a, x = .ok a → P a a) : outcomeRelation.rel P x x := by
  cases x with
  | ok a => exact .inl ⟨a, a, rfl, rfl, h a rfl⟩
  | error e => exact .inr ⟨e, rfl, rfl⟩

end MetricLayer
