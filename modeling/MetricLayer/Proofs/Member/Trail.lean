import MetricLayer.Member.Evaluate
import MetricLayer.Proofs.Repository.Member
import Mathlib.Data.List.Chain
import Mathlib.Data.List.Nodup
import Mathlib.Data.List.Perm.Subperm

/-!
# Evaluation along a trail

`evaluateOn` evaluates a definition with the members under evaluation as a trail. Each member of the
trail refers to the next one and no member occurs twice, so the trail is never longer than there are
members: the bound of the recursion is not what ends it.

The module introduces:

- `CompileScope.Refers p q` — the definition of the member at `p` refers to `q`;
- `CompileScope.IsTrail trail path` — the members of `trail`, all of them different, refer one to
  the next and the last of them to `path`;
- `Resolver.Follows` — two resolvers that answer alike on given paths;
- `Resolver.Asks` — a step that succeeds only where a resolver answers for all given paths, and that
  fails only where it fails for one of them or a reference is invalid.

Evaluating a definition asks for the paths that it refers to and for no others
(`Resolver.Follows.compile`, `Resolver.asks_compile`). So a member that has a value leads to no circle
of references (`not_mem_and_not_transGen_of_evaluateOn`), and its value is the same on every trail
(`evaluateOn_eq_ok_of_isTrail`).
-/

namespace MetricLayer

open Sql (Fragment)
open Relation (ReflTransGen TransGen)

/-! ## What an evaluation asks for -/

/-- Two resolvers find the same members of a repository under the given paths, and evaluate them
alike. -/
structure Resolver.Follows {m n : Type → Type} [Monad m] [Monad n] [MonadExcept Error m]
    [MonadExcept Error n] (M : MonadRelation m n) (repository : Repository)
    (known : String → Prop) (r : Resolver m) (r' : Resolver n) : Prop where
  find {path : String} : known path →
    M.rel (fun a b => a = b ∧ repository.member path = .ok a) (r.find path) (r'.find path)
  evaluate {path : String} {member : Member} : known path → repository.member path = .ok member →
    M.rel Eq (r.evaluate member) (r'.evaluate member)

namespace Resolver.Follows

variable {m n : Type → Type} [Monad m] [Monad n] [MonadExcept Error m] [MonadExcept Error n]
  {M : MonadRelation m n} {scope : CompileScope} {known : String → Prop} {r : Resolver m}
  {r' : Resolver n} (hr : r.Follows M scope.repository known r')

include hr

/-- A known reference leads to the same member in both ways. -/
theorem dimensionReference {owner : Member} {reference : String}
    (hknown : known (scope.qualify owner.model.name reference)) :
    M.rel (fun a b => a = b ∧ scope.repository.member
        (scope.qualify owner.model.name reference) = .ok a)
      (r.dimensionReference scope owner reference)
      (r'.dimensionReference scope owner reference) := by
  refine M.bind (hr.find hknown) ?_
  rintro found _ ⟨rfl, hfound⟩
  exact M.check (M.pure ⟨rfl, hfound⟩)

/-- A template with known references is written the same in both ways at the model level. -/
theorem modelTemplate (owner : Member) (t : Template)
    (hknown : ∀ path ∈ t.filterMap (scope.reference? owner.model.name), known path) :
    M.rel Eq (r.modelTemplate scope owner t) (r'.modelTemplate scope owner t) := by
  induction t with
  | nil => exact M.pure rfl
  | cons part rest ih =>
    -- Whatever the first part amounts to, the rest follows it on both sides.
    have happend (hrest : ∀ path ∈ rest.filterMap (scope.reference? owner.model.name), known path)
        (f f' : Fragment) (hf : f = f') := M.bind (ih hrest) fun g g' hg =>
      M.pure (P := Eq) (congrArg₂ (· ++ ·) hf hg)
    cases part with
    | dimension reference =>
      obtain ⟨hpath, hrest⟩ := List.forall_mem_cons.1 hknown
      rw [Resolver.modelTemplate, Resolver.modelTemplate]
      refine M.bind (hr.dimensionReference hpath) ?_
      rintro found _ ⟨rfl, hfound⟩
      refine M.check (M.bind (hr.evaluate hpath hfound) fun c c' hc => ?_)
      exact M.bind (M.pure (congrArg _ hc)) (happend hrest)
    | metric reference =>
      rw [Resolver.modelTemplate, Resolver.modelTemplate]
      exact M.bind (M.throw _) (happend (List.forall_mem_cons.1 hknown).2)
    | column name | sql text | value v | identifier name =>
      exact M.bind (M.pure rfl) (happend hknown)

/-- A part with a known reference is written the same in both ways. -/
theorem segmentPart (owner : Member) (part : TemplatePart)
    (hknown : ∀ path ∈ scope.reference? owner.model.name part, known path) :
    M.rel Eq (r.segmentPart scope owner part) (r'.segmentPart scope owner part) := by
  cases part with
  | dimension reference =>
    have hpath := hknown _ rfl
    refine M.bind (hr.dimensionReference hpath) ?_
    rintro found _ ⟨rfl, hfound⟩
    refine M.bind (hr.evaluate hpath hfound) ?_
    rintro c _ rfl
    exact M.pure rfl
  | metric reference =>
    have hpath := hknown _ rfl
    refine M.bind (hr.find hpath) ?_
    rintro found _ ⟨rfl, hfound⟩
    refine M.check (M.bind (hr.evaluate hpath hfound) ?_)
    rintro c _ rfl
    exact M.pure rfl
  | column name | sql text | value v | identifier name => exact M.pure rfl

/-- A template with known references is written the same in both ways at the segment level. -/
theorem segmentTemplate (owner : Member) (t : Template) (found : Compiled)
    (hknown : ∀ path ∈ t.filterMap (scope.reference? owner.model.name), known path) :
    M.rel Eq (r.segmentTemplate scope owner found t) (r'.segmentTemplate scope owner found t) := by
  induction t generalizing found with
  | nil => exact M.pure rfl
  | cons part rest ih =>
    have hpart : ∀ path ∈ scope.reference? owner.model.name part, known path := fun path hpath =>
      hknown path (List.mem_filterMap.2 ⟨part, List.mem_cons_self, hpath⟩)
    refine M.bind (hr.segmentPart owner part hpart) ?_
    rintro next _ rfl
    refine ih _ fun path hpath => hknown path ?_
    obtain ⟨part', hmem, hpath⟩ := List.mem_filterMap.1 hpath
    exact List.mem_filterMap.2 ⟨part', List.mem_cons_of_mem _ hmem, hpath⟩

/-- Resolvers that answer alike on what a definition refers to evaluate it alike. -/
theorem compile {member : Member} (hknown : ∀ path ∈ scope.references member, known path) :
    M.rel Eq (r.compile scope member) (r'.compile scope member) := by
  cases member with
  | dimension model d =>
    refine M.bind (hr.modelTemplate (.dimension model d) _ hknown) ?_
    rintro sql _ rfl
    exact M.pure rfl
  | metric model x => exact hr.segmentTemplate (.metric model x) _ _ hknown
  | granularity model d g =>
    have hpath := hknown _ List.mem_cons_self
    refine M.bind (hr.find hpath) ?_
    rintro parent _ ⟨rfl, hparent⟩
    refine M.bind (hr.evaluate hpath hparent) ?_
    rintro c _ rfl
    exact M.pure rfl
  | aggregate model d a =>
    have hpath := hknown _ List.mem_cons_self
    refine M.bind (hr.find hpath) ?_
    rintro target _ ⟨rfl, htarget⟩
    refine M.bind (hr.evaluate hpath htarget) ?_
    rintro c _ rfl
    exact M.pure rfl

end Resolver.Follows

namespace Resolver

/-- The evaluated definition of the member that a path names. -/
def answer (r : Resolver Result) (path : String) : Result Compiled := r.find path >>= r.evaluate

/-- A step succeeds only where the resolver answers for all the given paths, and it fails only where
a reference is invalid or the resolver fails for one of the paths. -/
structure Asks {α : Type} (r : Resolver Result) (paths : List String) (x : Result α) : Prop where
  ok (a : α) : x = .ok a → ∀ path ∈ paths, ∃ c, r.answer path = .ok c
  error (e : Error) : x = .error e →
    (∃ fault, e = .invalidReference fault) ∨ ∃ path ∈ paths, r.answer path = .error e

namespace Asks

variable {α β : Type} {r : Resolver Result} {paths : List String}

/-- A value asks for no member. -/
theorem pure (a : α) : r.Asks [] (pure a) := ⟨by simp, nofun⟩

/-- A wrong reference asks for no further member. -/
theorem throw (fault : ReferenceFault) : r.Asks paths (throw (.invalidReference fault) : Result α) := by
  refine ⟨nofun, ?_⟩
  rintro _ ⟨⟩
  exact .inl ⟨fault, rfl⟩

/-- Two steps ask for what the first and then the second one asks for. -/
theorem bind {paths' : List String} {x : Result α} {f : α → Result β} (hx : r.Asks paths x)
    (hf : ∀ a, r.Asks paths' (f a)) : r.Asks (paths ++ paths') (x >>= f) := by
  -- Where the first step fails nothing more is asked, so its own paths must explain the error.
  cases hxa : x with
  | error e =>
    refine ⟨nofun, ?_⟩
    rintro _ ⟨⟩
    refine (hx.error e hxa).imp_right ?_
    rintro ⟨path, hpath, he⟩
    exact ⟨path, List.mem_append_left _ hpath, he⟩
  | ok a =>
    refine ⟨fun b hb path hpath => ?_, fun e he => ((hf a).error e he).imp_right ?_⟩
    · exact (List.mem_append.1 hpath).elim (hx.ok a hxa path) ((hf a).ok b hb path)
    · rintro ⟨path, hpath, he⟩
      exact ⟨path, List.mem_append_right _ hpath, he⟩

/-- A step that goes on only where a check passes. -/
theorem check {c : Prop} [Decidable c] {fault : ReferenceFault} {f : Unit → Result α}
    (h : r.Asks paths (f ())) :
    r.Asks paths (if c then MonadExcept.throw (.invalidReference fault) >>= f else f ()) := by
  split_ifs
  · exact throw fault
  · exact h

/-- A step that looks up a path. -/
theorem find {path : String} {f : Member → Result α}
    (h : ∀ found, r.find path = .ok found → r.Asks (path :: paths) (f found)) :
    r.Asks (path :: paths) (r.find path >>= f) := by
  cases hfind : r.find path with
  | ok found => exact h found hfind
  | error e =>
    refine ⟨nofun, ?_⟩
    rintro _ ⟨⟩
    exact .inr ⟨path, List.mem_cons_self, by rw [answer, hfind]; rfl⟩

/-- A step that evaluates the member that has been found under a path. -/
theorem evaluate {path : String} {found : Member} (hfind : r.find path = .ok found)
    {f : Compiled → Result α} (h : ∀ c, r.Asks paths (f c)) :
    r.Asks (path :: paths) (r.evaluate found >>= f) := by
  have hanswer : r.answer path = r.evaluate found := by rw [answer, hfind]; rfl
  have hstep : r.Asks [path] (r.evaluate found) := by
    refine ⟨fun c hc => ?_, fun e he => .inr ⟨path, List.mem_cons_self, hanswer.trans he⟩⟩
    simpa using ⟨c, hanswer.trans hc⟩
  exact hstep.bind h

end Asks

variable {r : Resolver Result} {scope : CompileScope}

/-- A reference asks for its member first. -/
private theorem asks_dimensionReference {α : Type} {owner : Member} {reference : String}
    {paths : List String} {f : Member → Result α}
    (h : ∀ found, r.find (scope.qualify owner.model.name reference) = .ok found →
      r.Asks (scope.qualify owner.model.name reference :: paths) (f found)) :
    r.Asks (scope.qualify owner.model.name reference :: paths)
      (r.dimensionReference scope owner reference >>= f) := by
  rw [dimensionReference, bind_assoc]
  refine .find fun found hfound => ?_
  dsimp only
  split_ifs
  · exact .throw _
  · exact h found hfound

/-- A template at the model level asks for its references in order. -/
private theorem asks_modelTemplate (r : Resolver Result) (scope : CompileScope) (owner : Member)
    (t : Template) :
    r.Asks (t.filterMap (scope.reference? owner.model.name)) (r.modelTemplate scope owner t) := by
  induction t with
  | nil => exact .pure _
  | cons part rest ih =>
    -- Whatever a part becomes, the rest of the definition asks its own questions behind it.
    have happend (f : Fragment) :
        r.Asks (rest.filterMap (scope.reference? owner.model.name)) (do
          return f ++ (← r.modelTemplate scope owner rest)) := by
      simpa using ih.bind fun g => Asks.pure (f ++ g)
    cases part with
    | dimension reference =>
      rw [modelTemplate]
      exact asks_dimensionReference fun found hfound =>
        .check (.evaluate hfound fun c => happend c.sql)
    | metric reference => exact .throw _
    | column name | sql text | value v | identifier name => exact happend _

/-- A part at the segment level asks for its own reference. -/
private theorem asks_segmentPart (owner : Member) (part : TemplatePart) :
    r.Asks (scope.reference? owner.model.name part).toList (r.segmentPart scope owner part) := by
  cases part with
  | dimension reference =>
    exact asks_dimensionReference fun found hfound => .evaluate hfound fun c => .pure _
  | metric reference =>
    exact .find fun found hfound => .check (.evaluate hfound fun c => .pure _)
  | column name | sql text | value v | identifier name => exact .pure _

/-- A template at the segment level asks for its references in order. -/
private theorem asks_segmentTemplate (owner : Member) (t : Template) (found : Compiled) :
    r.Asks (t.filterMap (scope.reference? owner.model.name))
      (r.segmentTemplate scope owner found t) := by
  induction t generalizing found with
  | nil => exact .pure _
  | cons part rest ih =>
    have hpaths : (part :: rest).filterMap (scope.reference? owner.model.name) =
        (scope.reference? owner.model.name part).toList ++
          rest.filterMap (scope.reference? owner.model.name) := by
      cases hpart : scope.reference? owner.model.name part <;> simp [hpart]
    rw [hpaths]
    exact (asks_segmentPart owner part).bind fun next => ih _

/-- Evaluating a definition asks for everything that it refers to. -/
theorem asks_compile (r : Resolver Result) (scope : CompileScope) (member : Member) :
    r.Asks (scope.references member) (r.compile scope member) := by
  cases member with
  | dimension model d =>
    have hstep := (r.asks_modelTemplate scope (.dimension model d)
      (d.template ⟨model.name, scope.context⟩)).bind fun sql =>
        Asks.pure (ownProjection (.dimension model d) sql)
    rwa [List.append_nil] at hstep
  | metric model x => exact asks_segmentTemplate (.metric model x) _ _
  | granularity model d g | aggregate model d a =>
    exact .find fun found hfound => .evaluate hfound fun c => .pure _

end Resolver

/-! ## Trails -/

/-- The members that a repository declares are among those that it counts. -/
private theorem Repository.mem_members_of_declares {r : Repository} {member : Member}
    (h : r.Declares member) : member ∈ r.models.flatMap modelMembers := by
  have hdimension {m : Model} {d : Dimension} (hm : m ∈ r.models) (hd : d ∈ m.dimensions)
      {member : Member} (hmember : member ∈ dimensionMembers m d) :
      member ∈ r.models.flatMap modelMembers :=
    List.mem_flatMap.2 ⟨m, hm, List.mem_append_left _ (List.mem_flatMap.2 ⟨d, hd, hmember⟩)⟩
  -- The granularities and aggregates that are counted are all that there are.
  cases member with
  | dimension m d => exact hdimension h.1 h.2 List.mem_cons_self
  | granularity m d g =>
    have hg : g ∈ Granularity.all := by cases g <;> decide
    exact hdimension h.1 h.2 (by simp [dimensionMembers, hg])
  | aggregate m d a =>
    have ha : a ∈ Aggregate.all := by cases a <;> decide
    exact hdimension h.1 h.2 (by simp [dimensionMembers, ha])
  | metric m x =>
    exact List.mem_flatMap.2 ⟨m, h.1, List.mem_append_right _ (List.mem_map_of_mem h.2)⟩

/-- Different paths that name members are not more than there are members. -/
theorem Repository.length_le_memberCount {r : Repository} {paths : List String}
    (hnodup : paths.Nodup) (h : ∀ path ∈ paths, ∃ member, r.member path = .ok member) :
    paths.length ≤ r.memberCount := by
  have hsubset : paths ⊆ (r.models.flatMap modelMembers).map Member.path := by
    intro path hpath
    obtain ⟨member, hmember⟩ := h path hpath
    exact List.mem_map.2 ⟨member, mem_members_of_declares (declares_of_member hmember),
      path_of_member hmember⟩
  have hlength := (List.Nodup.subperm hnodup hsubset).length_le
  rwa [List.length_map] at hlength

namespace CompileScope

variable {scope : CompileScope} {trail : List String} {path : String}

/-- The definition of the member at one path refers to another path. -/
def Refers (scope : CompileScope) (p q : String) : Prop := q ∈ scope.referencesAt p

instance (p q : String) : Decidable (scope.Refers p q) :=
  inferInstanceAs (Decidable (q ∈ scope.referencesAt p))

/-- A member refers to the paths in its definition. -/
theorem refers_iff {member : Member} {p q : String} (hm : scope.repository.member p = .ok member) :
    scope.Refers p q ↔ q ∈ scope.references member := by
  rw [Refers, referencesAt, hm]

/-- Only members refer to something. -/
theorem Refers.exists_member {p q : String} (h : scope.Refers p q) :
    ∃ member, scope.repository.member p = .ok member := by
  unfold Refers referencesAt at h
  cases hm : scope.repository.member p with
  | ok member => exact ⟨member, rfl⟩
  | error e => simp [hm] at h

/-- Members under evaluation, each of them for the one before it, and the last of them for the given
path. -/
structure IsTrail (scope : CompileScope) (trail : List String) (path : String) : Prop where
  nodup : trail.Nodup
  chain : (trail ++ [path]).IsChain scope.Refers

/-- Every path starts a trail. -/
theorem isTrail_nil (scope : CompileScope) (path : String) : scope.IsTrail [] path :=
  ⟨List.nodup_nil, .singleton path⟩

namespace IsTrail

variable (h : scope.IsTrail trail path)

include h

/-- A trail that is extended by a new path meets no path twice. -/
theorem nodup_append (hpath : path ∉ trail) : (trail ++ [path]).Nodup := by
  refine List.nodup_append.2 ⟨h.nodup, List.nodup_singleton path, ?_⟩
  rintro p hp q hq rfl
  exact hpath (List.mem_singleton.1 hq ▸ hp)

/-- A reference of the last member extends the trail. -/
theorem extend (hpath : path ∉ trail) {next : String} (hnext : scope.Refers path next) :
    scope.IsTrail (trail ++ [path]) next := by
  refine ⟨h.nodup_append hpath, ?_⟩
  rw [List.append_assoc, List.singleton_append, List.isChain_split]
  exact ⟨h.chain, List.isChain_pair.2 hnext⟩

/-- Every member of a trail leads to its end. -/
theorem transGen {p : String} (hp : p ∈ trail) : TransGen scope.Refers p path := by
  obtain ⟨before, after, rfl⟩ := List.append_of_mem hp
  have hchain := h.chain
  rw [List.append_assoc] at hchain
  obtain ⟨next, rest, hrest⟩ := List.exists_cons_of_ne_nil (List.append_ne_nil_of_right_ne_nil after
    (List.cons_ne_nil path []))
  have hsuffix : (p :: next :: rest).IsChain scope.Refers := by
    rw [← hrest]
    exact hchain.right_of_append
  have hlast : (next :: rest).getLast (List.cons_ne_nil _ _) = path := by
    simp [← hrest]
  obtain ⟨hnext, hchain⟩ := List.isChain_cons_cons.1 hsuffix
  exact .head' hnext (List.relationReflTransGen_of_exists_isChain_cons rest hchain hlast)

/-- A trail as long as there are members closes: its end is on it. -/
theorem mem_of_memberCount_le {member : Member} (hm : scope.repository.member path = .ok member)
    (hlength : scope.repository.memberCount ≤ trail.length) : path ∈ trail := by
  by_contra hpath
  have hnamed : ∀ p ∈ trail ++ [path], ∃ member, scope.repository.member p = .ok member := by
    intro p hp
    rcases List.mem_append.1 hp with hp | hp
    · obtain ⟨q, hq, -⟩ := TransGen.head'_iff.1 (h.transGen hp)
      exact hq.exists_member
    · exact ⟨member, List.mem_singleton.1 hp ▸ hm⟩
  have hcount := Repository.length_le_memberCount (h.nodup_append hpath) hnamed
  rw [List.length_append, List.length_singleton] at hcount
  omega

end IsTrail

/-! ## Evaluation on trails -/

/-- A member on its own trail closes a circle, whatever the bound. -/
theorem evaluateOn_of_mem (bound : Nat) {member : Member} (h : member.path ∈ trail) :
    scope.evaluateOn bound trail member =
      .error (.cyclicReference (cycleThrough trail member.path)) := by
  cases bound with
  | zero => rw [evaluateOn]
  | succ bound => rw [evaluateOn, if_pos h]

/-- The members that a resolver of `evaluateOn` finds under a path, and their values. -/
private theorem exists_of_answer {bound : Nat} {c : Compiled}
    (h : Resolver.answer ⟨scope.repository.member, scope.evaluateOn bound trail⟩ path = .ok c) :
    ∃ found, scope.repository.member path = .ok found ∧
      scope.evaluateOn bound trail found = .ok c :=
  exists_ok_of_bind h

section Values

variable {bound : Nat} {member : Member} {c : Compiled}

/-- Where a member has a value, so has every member that it refers to, on the longer trail. -/
theorem exists_evaluateOn_of_refers (hm : scope.repository.IsMember member)
    (h : scope.evaluateOn (bound + 1) trail member = .ok c) {q : String}
    (hq : scope.Refers member.path q) : ∃ found c', scope.repository.member q = .ok found ∧
      scope.evaluateOn bound (trail ++ [member.path]) found = .ok c' := by
  rw [evaluateOn] at h
  split_ifs at h
  obtain ⟨c', hanswer⟩ := (Resolver.asks_compile _ scope member).ok c h q
    ((refers_iff hm.member_path).1 hq)
  obtain ⟨found, hfound, hvalue⟩ := exists_of_answer hanswer
  exact ⟨found, c', hfound, hvalue⟩

/-- A member that has a value leads neither back to its trail nor to a circle. -/
theorem not_mem_and_not_transGen_of_evaluateOn (hm : scope.repository.IsMember member)
    (h : scope.evaluateOn bound trail member = .ok c) {p : String}
    (hp : ReflTransGen scope.Refers member.path p) : p ∉ trail ∧ ¬TransGen scope.Refers p p := by
  -- Induction on the bound. What lies beyond the member is met by one of its references, which has
  -- a value on a trail that ends with the member.
  induction bound generalizing trail member c p with
  | zero => cases h
  | succ bound ih =>
    have hstep {q r : String} (hq : scope.Refers member.path q) (hr : ReflTransGen scope.Refers q r) :
        r ∉ trail ++ [member.path] ∧ ¬TransGen scope.Refers r r := by
      obtain ⟨found, c', hfound, hvalue⟩ := exists_evaluateOn_of_refers hm h hq
      rw [← Repository.path_of_member hfound] at hr
      exact ih ⟨q, hfound⟩ hvalue hr
    rcases ReflTransGen.cases_head hp with rfl | ⟨q, hq, hqp⟩
    · refine ⟨fun hmem => ?_, fun hcircle => ?_⟩
      · rw [evaluateOn_of_mem _ hmem] at h
        cases h
      · obtain ⟨q, hq, hback⟩ := TransGen.head'_iff.1 hcircle
        exact (hstep hq hback).1 (List.mem_append_right _ (List.mem_singleton_self _))
    · obtain ⟨htrail, hcircle⟩ := hstep hq hqp
      exact ⟨fun hmem => htrail (List.mem_append_left _ hmem), hcircle⟩

end Values

namespace IsTrail

variable {member : Member} (h : scope.IsTrail trail member.path)
  (hm : scope.repository.IsMember member) (hmem : member.path ∉ trail)

include h hm hmem

/-- A trail that has not closed leaves something of the bound. -/
private theorem exists_bound_eq {bound : Nat}
    (hbound : scope.repository.memberCount ≤ bound + trail.length) : ∃ rest, bound = rest + 1 := by
  refine Nat.exists_eq_succ_of_ne_zero ?_
  rintro rfl
  exact hmem (h.mem_of_memberCount_le hm.member_path (by omega))

/-- The trail on which a reference of the member is evaluated. -/
theorem extend_references {found : Member} (hq : path ∈ scope.references member)
    (hfound : scope.repository.member path = .ok found) :
    scope.IsTrail (trail ++ [member.path]) found.path := by
  rw [Repository.path_of_member hfound]
  exact h.extend hmem ((refers_iff hm.member_path).2 hq)

end IsTrail

/-- A value does not depend on the trail: a member that has a value on one trail has it on all. -/
theorem evaluateOn_eq_ok_of_isTrail {bound bound' : Nat} {trail trail' : List String}
    {member : Member} (hm : scope.repository.IsMember member) {c : Compiled}
    (h : scope.evaluateOn bound trail member = .ok c) (htrail : scope.IsTrail trail' member.path)
    (hbound : scope.repository.memberCount ≤ bound' + trail'.length) :
    scope.evaluateOn bound' trail' member = .ok c := by
  induction bound generalizing trail member c bound' trail' with
  | zero => cases h
  | succ bound ih =>
    -- A member on the other trail would lead back to itself, and so would have no value.
    have hmem : member.path ∉ trail' := fun hmem =>
      (not_mem_and_not_transGen_of_evaluateOn hm h .refl).2 (htrail.transGen hmem)
    obtain ⟨bound', rfl⟩ := htrail.exists_bound_eq hm hmem hbound
    have hfollows : Resolver.Follows transferRelation scope.repository (· ∈ scope.references member)
        ⟨scope.repository.member, scope.evaluateOn bound (trail ++ [member.path])⟩
        ⟨scope.repository.member, scope.evaluateOn bound' (trail' ++ [member.path])⟩ := by
      refine ⟨fun {q} hq found hfound => ⟨found, hfound, rfl, hfound⟩, ?_⟩
      intro q found hq hfound c' hc'
      refine ⟨c', ih ⟨q, hfound⟩ hc' (htrail.extend_references hm hmem hq hfound) ?_, rfl⟩
      rw [List.length_append, List.length_singleton]
      omega
    rw [evaluateOn] at h ⊢
    split_ifs at h
    rw [if_neg hmem]
    obtain ⟨_, hc, rfl⟩ := hfollows.compile (fun _ => id) c h
    exact hc

/-- A bound that leaves room for all members makes no difference: the recursion ends by itself. -/
theorem evaluateOn_eq_of_memberCount_le {bound bound' : Nat} {trail : List String} {member : Member}
    (hm : scope.repository.IsMember member) (htrail : scope.IsTrail trail member.path)
    (hbound : scope.repository.memberCount ≤ bound + trail.length)
    (hbound' : scope.repository.memberCount ≤ bound' + trail.length) :
    scope.evaluateOn bound trail member = scope.evaluateOn bound' trail member := by
  -- By induction on the first bound. With nothing left of it every member is on the trail, so the
  -- next one closes a circle under either bound.
  induction bound generalizing bound' trail member with
  | zero =>
    have hmem := htrail.mem_of_memberCount_le hm.member_path (by omega)
    rw [evaluateOn_of_mem _ hmem, evaluateOn_of_mem _ hmem]
  | succ bound ih =>
    by_cases hmem : member.path ∈ trail
    · rw [evaluateOn_of_mem _ hmem, evaluateOn_of_mem _ hmem]
    · obtain ⟨bound', rfl⟩ := htrail.exists_bound_eq hm hmem hbound'
      have hfollows : Resolver.Follows outcomeRelation scope.repository
          (· ∈ scope.references member)
          ⟨scope.repository.member, scope.evaluateOn bound (trail ++ [member.path])⟩
          ⟨scope.repository.member, scope.evaluateOn bound' (trail ++ [member.path])⟩ := by
        refine ⟨fun {q} hq => outcomeRelation_self fun found hfound => ⟨rfl, hfound⟩, ?_⟩
        intro q found hq hfound
        have heq : scope.evaluateOn bound (trail ++ [member.path]) found =
            scope.evaluateOn bound' (trail ++ [member.path]) found := by
          refine ih ⟨q, hfound⟩ (htrail.extend_references hm hmem hq hfound) ?_ ?_ <;>
          · rw [List.length_append, List.length_singleton]
            omega
        dsimp only
        rw [heq]
        exact outcomeRelation_self fun _ _ => rfl
      rw [evaluateOn, evaluateOn, if_neg hmem, if_neg hmem]
      exact eq_of_outcomeRelation (hfollows.compile fun _ => id)

end CompileScope

end MetricLayer
