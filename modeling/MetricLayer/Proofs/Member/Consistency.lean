import MetricLayer.Proofs.Member.Reference

/-!
# Failures that no request is to blame for

Some errors say that the parts of a compile do not fit together: a path of joins that cannot be
rebuilt, a model that is not declared, a metric that no segment computes. A step is consistent if
it never fails in such a way. Here this is shown for finding members and for evaluating definitions.

* `Error.isInternal` — the errors that no request is to blame for;
* `Consistent` — a step that does not fail with one of them;
* `CompileScope.consistent_evaluate` — evaluating the definition of a member is consistent;
* `CompileScope.knows_of_evaluate` — it reads declared models only.
-/

namespace MetricLayer

/-- Errors that say that the parts of a compile do not fit together. -/
def Error.isInternal : Error → Bool
  | .brokenPath .. | .unknownModel _ | .invalidModel _ | .duplicateJoin .. => true
  | .invalidQuery (.metricNotComputed _) | .invalidQuery (.metricBeforeAggregation _)
  | .invalidQuery .nestedUnavailable => true
  | .invalidFilter _ _ .notComparison | .invalidFilter _ _ .notPattern
  | .invalidFilter _ _ .notDateComparison => true
  | _ => false

/-- Where a step fails, the error is not an internal one. -/
def Consistent {α : Type} (x : Result α) : Prop := ∀ e, x = .error e → e.isInternal = false

namespace Consistent

variable {α β : Type}

theorem ok (a : α) : Consistent (.ok a) := nofun

theorem pure (a : α) : Consistent (pure a) := nofun

/-- An error that is not an internal one is the fault of the request. -/
theorem error {e : Error} (h : e.isInternal = false) : Consistent (.error e : Result α) := by
  rintro _ ⟨⟩
  exact h

/-- Reporting an error that is not an internal one is the fault of the request. -/
theorem throw {e : Error} (h : e.isInternal = false) : Consistent (throw e : Result α) :=
  error h

/-- A second step may rely on what the first one has given. -/
theorem bind {x : Result α} {f : α → Result β} (hx : Consistent x)
    (hf : ∀ a, x = .ok a → Consistent (f a)) : Consistent (x >>= f) := by
  intro e he
  rcases error_or_exists_of_bind he with herror | ⟨a, ha, herror⟩
  · exact hx e herror
  · exact hf a ha e herror

/-- A check that reports the fault of the request may stand in front. -/
theorem check {c : Prop} [Decidable c] {e : Error} {f : Unit → Result α}
    (he : e.isInternal = false) (h : ¬c → Consistent (f ())) :
    Consistent (if c then (MonadExcept.throw e : Result Unit) >>= f else f ()) := by
  split_ifs with hc
  · exact bind (throw he) nofun
  · exact h hc

/-- Steps over a list are consistent where each of them is. -/
theorem mapM {f : α → Result β} {as : List α} (h : ∀ a ∈ as, Consistent (f a)) :
    Consistent (as.mapM f) := by
  induction as with
  | nil => exact pure []
  | cons a rest ih =>
    obtain ⟨ha, hrest⟩ := List.forall_mem_cons.1 h
    rw [List.mapM_cons]
    exact ha.bind fun _ _ => (ih hrest).bind fun _ _ => pure _

/-- Repeated steps are consistent where each of them is. -/
theorem foldlM {f : β → α → Result β} {as : List α} (h : ∀ a ∈ as, ∀ b, Consistent (f b a))
    (b : β) : Consistent (as.foldlM f b) := by
  induction as generalizing b with
  | nil => exact pure b
  | cons a rest ih =>
    obtain ⟨ha, hrest⟩ := List.forall_mem_cons.1 h
    rw [List.foldlM_cons]
    exact (ha b).bind fun b' _ => ih hrest b'

/-- A filter is consistent where its test is. -/
theorem filterM {f : α → Result Bool} {as : List α} (h : ∀ a ∈ as, Consistent (f a)) :
    Consistent (as.filterM f) := by
  have haux (found : List α) : Consistent (as.filterAuxM f found) := by
    induction as generalizing found with
    | nil => exact pure found
    | cons a rest ih =>
      obtain ⟨ha, hrest⟩ := List.forall_mem_cons.1 h
      exact ha.bind fun b _ => ih hrest _
  exact (haux []).bind fun _ _ => pure _

end Consistent

/-! ## Members -/

namespace Repository

/-- A path that names no member is to blame for that. -/
theorem consistent_member (r : Repository) (path : String) : Consistent (r.member path) := by
  intro e h
  rcases error_of_member h with ⟨fault, rfl⟩ | ⟨tag, rfl⟩ <;> rfl

/-- Some declared model has the name. -/
def Knows (r : Repository) (name : String) : Prop := name ∈ r.models.map (·.name)

/-- The model of a member is declared. -/
theorem IsMember.knows_model {r : Repository} {m : Member} (h : r.IsMember m) :
    r.Knows m.model.name := by
  obtain ⟨path, hpath⟩ := h
  have hdeclares := declares_of_member hpath
  cases m <;> exact List.mem_map_of_mem hdeclares.1

/-- A path that is no dimension is the fault of the request. -/
theorem consistent_dimension (r : Repository) (path : String) : Consistent (r.dimension path) :=
  (r.consistent_member path).bind fun m _ => .check rfl fun _ => .pure m

/-- A path that is no metric is the fault of the request. -/
theorem consistent_metric (r : Repository) (path : String) : Consistent (r.metric path) := by
  refine (r.consistent_member path).bind fun m _ => ?_
  split_ifs
  · exact .pure m
  · exact .throw rfl

end Repository

/-! ## Definitions -/

/-- A resolver finds and evaluates members of a repository consistently. -/
structure Resolver.IsConsistent (repository : Repository) (r : Resolver Result) : Prop where
  find (path : String) : Consistent (r.find path)
  found {path : String} {m : Member} : r.find path = .ok m → repository.IsMember m
  evaluate {m : Member} : repository.IsMember m → Consistent (r.evaluate m)

namespace Resolver.IsConsistent

variable {scope : CompileScope} {r : Resolver Result} (hr : r.IsConsistent scope.repository)

include hr

/-- Following a reference to a dimension fails by a fault of the request only. -/
private theorem dimensionReference (owner : Member) (reference : String) :
    Consistent (r.dimensionReference scope owner reference) :=
  (hr.find _).bind fun found _ => .check rfl fun _ => .pure found

omit hr in
/-- A reference to a dimension leads to a member. -/
private theorem isMember_of_dimensionReference (hr : r.IsConsistent scope.repository)
    {owner found : Member} {reference : String}
    (h : r.dimensionReference scope owner reference = .ok found) :
    scope.repository.IsMember found := by
  obtain ⟨found', hfound, h⟩ := exists_ok_of_bind h
  obtain ⟨-, h⟩ := not_and_ok_of_check h
  obtain rfl := Except.ok.inj h
  exact hr.found hfound

/-- A template at the model level fails by a fault of the request only. -/
private theorem modelTemplate (owner : Member) (t : Template) :
    Consistent (r.modelTemplate scope owner t) := by
  induction t with
  | nil => exact .pure _
  | cons part rest ih =>
    -- Whatever a part becomes, the rest of the definition follows behind it.
    have happend (f : Sql.Fragment) :
        Consistent (do return f ++ (← r.modelTemplate scope owner rest)) :=
      ih.bind fun _ _ => .pure _
    cases part with
    | dimension reference =>
      refine (hr.dimensionReference owner reference).bind fun found hfound => .check rfl fun _ => ?_
      refine (hr.evaluate (isMember_of_dimensionReference hr hfound)).bind fun c _ => ?_
      exact happend c.sql
    | metric reference => exact .bind (.throw rfl) nofun
    | column name | sql text | value v | identifier name => exact happend _

/-- A part at the segment level fails by a fault of the request only. -/
private theorem segmentPart (owner : Member) (part : TemplatePart) :
    Consistent (r.segmentPart scope owner part) := by
  cases part with
  | dimension reference =>
    refine (hr.dimensionReference owner reference).bind fun found hfound => ?_
    exact (hr.evaluate (isMember_of_dimensionReference hr hfound)).bind fun _ _ => .pure _
  | metric reference =>
    refine (hr.find _).bind fun found hfound => .check rfl fun _ => ?_
    exact (hr.evaluate (hr.found hfound)).bind fun _ _ => .pure _
  | column name | sql text | value v | identifier name => exact .pure _

/-- A template at the segment level fails by a fault of the request only. -/
private theorem segmentTemplate (owner : Member) (t : Template) (found : Compiled) :
    Consistent (r.segmentTemplate scope owner found t) := by
  induction t generalizing found with
  | nil => exact .pure _
  | cons part rest ih => exact (hr.segmentPart owner part).bind fun _ _ => ih _

/-- One step of an evaluation is consistent. -/
theorem compile (member : Member) : Consistent (r.compile scope member) := by
  cases member with
  | dimension model d => exact (hr.modelTemplate _ _).bind fun _ _ => .pure _
  | granularity model d g | aggregate model d a =>
    refine (hr.find _).bind fun target htarget => ?_
    exact (hr.evaluate (hr.found htarget)).bind fun _ _ => .pure _
  | metric model x => exact hr.segmentTemplate _ _ _

/-- Writing a member at the segment level fails by a fault of the request only. -/
theorem segmentSql {member : Member} (hm : scope.repository.IsMember member) :
    Consistent (r.segmentSql scope member) := by
  unfold Resolver.segmentSql
  split_ifs
  · exact (hr.evaluate hm).bind fun _ _ => .pure _
  · exact .pure _

/-- A part of a join condition fails by a fault of the request only. -/
private theorem conditionPart (join : Join) (part : TemplatePart) :
    Consistent (r.conditionPart scope join part) := by
  cases part with
  | dimension path =>
    refine (hr.find path).bind fun found hfound => .check rfl fun _ => .check rfl fun _ => ?_
    exact (hr.evaluate (hr.found hfound)).bind fun _ _ => .pure _
  | column name | metric path => exact .throw rfl
  | sql text | value v | identifier name => exact .pure _

/-- A join condition fails by a fault of the request only. -/
theorem joinCondition (join : Join) : Consistent (r.joinCondition scope join) := by
  have hparts (t : Template) (found : Sql.Fragment × List Projection) :
      Consistent (r.conditionParts scope join found t) := by
    induction t generalizing found with
    | nil => exact .pure _
    | cons part rest ih => exact (hr.conditionPart join part).bind fun _ _ => ih _
  exact hparts _ _

end Resolver.IsConsistent

namespace CompileScope

variable {scope : CompileScope}

/-- Evaluating a member fails by a fault of the request only. -/
private theorem consistent_evaluateOn (scope : CompileScope) (bound : Nat) (trail : List String)
    (member : Member) : Consistent (scope.evaluateOn bound trail member) := by
  -- Induction on the bound, as for what an evaluation reads.
  induction bound generalizing trail member with
  | zero => exact .error rfl
  | succ bound ih =>
    have hr : Resolver.IsConsistent scope.repository
        ⟨scope.repository.member, scope.evaluateOn bound (trail ++ [member.path])⟩ :=
      ⟨scope.repository.consistent_member, fun hfound => ⟨_, hfound⟩, fun _ => ih _ _⟩
    rw [evaluateOn]
    split_ifs
    · exact .error rfl
    · exact hr.compile member

/-- Where the definition of a member cannot be evaluated, the definition is to blame. -/
theorem consistent_evaluate {member : Member} (hm : scope.repository.IsMember member) :
    Consistent (scope.evaluate member) := by
  rw [evaluate_eq_evaluateOn hm]
  exact scope.consistent_evaluateOn _ _ _

/-- A resolver that reads declared models only. -/
private structure ReadsDeclared (scope : CompileScope) (r : Resolver Result) : Prop where
  found {path : String} {m : Member} : r.find path = .ok m → scope.repository.IsMember m
  evaluate {m : Member} {c : Compiled} : scope.repository.IsMember m → r.evaluate m = .ok c →
    ∀ b ∈ c.models, scope.repository.Knows b

namespace ReadsDeclared

variable {r : Resolver Result} (hr : scope.ReadsDeclared r)

include hr

/-- A part reads declared models only. -/
private theorem segmentPart {owner : Member} {part : TemplatePart} {c : Compiled}
    (h : r.segmentPart scope owner part = .ok c) : ∀ b ∈ c.models, scope.repository.Knows b := by
  cases part with
  | dimension reference =>
    obtain ⟨found, hfound, h⟩ := exists_ok_of_bind h
    obtain ⟨compiled, hcompiled, h⟩ := exists_ok_of_bind h
    obtain rfl := Except.ok.inj h
    obtain ⟨found', hfound', hfound⟩ := exists_ok_of_bind hfound
    obtain ⟨-, hfound⟩ := not_and_ok_of_check hfound
    obtain rfl := Except.ok.inj hfound
    exact fun b hb => hr.evaluate (hr.found hfound') hcompiled b hb
  | metric reference =>
    obtain ⟨found, hfound, h⟩ := exists_ok_of_bind h
    obtain ⟨-, h⟩ := not_and_ok_of_check h
    obtain ⟨compiled, hcompiled, h⟩ := exists_ok_of_bind h
    obtain rfl := Except.ok.inj h
    exact fun b hb => hr.evaluate (hr.found hfound) hcompiled b hb
  | column name | sql text | value v | identifier name =>
    obtain rfl := Except.ok.inj h
    exact nofun

/-- A template reads declared models only. -/
private theorem segmentTemplate {owner : Member} {t : Template} {found c : Compiled}
    (hfound : ∀ b ∈ found.models, scope.repository.Knows b)
    (h : r.segmentTemplate scope owner found t = .ok c) :
    ∀ b ∈ c.models, scope.repository.Knows b := by
  induction t generalizing found with
  | nil =>
    obtain rfl := Except.ok.inj h
    exact hfound
  | cons part rest ih =>
    obtain ⟨next, hnext, h⟩ := exists_ok_of_bind h
    refine ih (fun b hb => ?_) h
    exact (mem_addAllNew.1 hb).elim (hfound b) (hr.segmentPart hnext b)

/-- A member reads declared models only. -/
private theorem compile {m : Member} (hm : scope.repository.IsMember m) {c : Compiled}
    (h : r.compile scope m = .ok c) : ∀ b ∈ c.models, scope.repository.Knows b := by
  have hown : scope.repository.Knows m.model.name := hm.knows_model
  cases m with
  | dimension model d =>
    obtain ⟨sql, -, h⟩ := exists_ok_of_bind h
    obtain rfl := Except.ok.inj h
    exact List.forall_mem_singleton.2 hown
  | granularity model d g =>
    obtain ⟨parent, -, h⟩ := exists_ok_of_bind h
    obtain ⟨compiled, -, h⟩ := exists_ok_of_bind h
    obtain rfl := Except.ok.inj h
    exact List.forall_mem_singleton.2 hown
  | metric model x => exact hr.segmentTemplate (List.forall_mem_singleton.2 hown) h
  | aggregate model d a =>
    obtain ⟨target, htarget, h⟩ := exists_ok_of_bind h
    obtain ⟨compiled, hcompiled, h⟩ := exists_ok_of_bind h
    obtain rfl := Except.ok.inj h
    exact fun b hb => hr.evaluate (hr.found htarget) hcompiled b hb

end ReadsDeclared

/-- Definitions read declared models only. -/
theorem knows_of_evaluate {m : Member} (hm : scope.repository.IsMember m) {c : Compiled}
    (h : scope.evaluate m = .ok c) : ∀ b ∈ c.models, scope.repository.Knows b := by
  rw [evaluate_eq_evaluateOn hm] at h
  -- Induction on the bound, over all trails.
  generalize scope.repository.memberCount = bound, ([] : List String) = trail at h
  induction bound generalizing trail m c with
  | zero => cases h
  | succ bound ih =>
    rw [evaluateOn] at h
    split_ifs at h
    have hr : scope.ReadsDeclared
        ⟨scope.repository.member, scope.evaluateOn bound (trail ++ [m.path])⟩ :=
      ⟨fun hfound => ⟨_, hfound⟩, fun hm' h' => ih hm' _ h'⟩
    exact hr.compile hm h

/-- Members are found and evaluated, or the request is at fault. -/
theorem isConsistent_resolver (scope : CompileScope) :
    scope.resolver.IsConsistent scope.repository :=
  ⟨scope.repository.consistent_member, fun hfound => ⟨_, hfound⟩, consistent_evaluate⟩

end CompileScope

end MetricLayer
