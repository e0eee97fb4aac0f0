import MetricLayer.Member.Session
import MetricLayer.Proofs.Member.Trail

/-!
# Sessions are transparent

What a session answers does not depend on what it remembers. The members and definitions that it
remembers are those that the repository and an evaluation from scratch give, and this is kept by
every operation, also by one that fails half way.

The module introduces:

- `Session.Faithful` — the session remembers right answers only, and has a given stack;
- `sessionRelation` — an operation that keeps the session faithful and ends like a computation
  without a session, with the same value or the same error;
- `SessionOp` — what can be asked of a session.

A definition is remembered in the midst of evaluating others, and is used later under other stacks.
Both are sound because a value does not depend on the trail (`evaluateOn_eq_ok_of_isTrail`). It
follows that an evaluation is one without memory (`evaluate_eq_evaluateOn`), and that a history of
operations answers as if each of them were the first (`answers_history_eq`).
-/

namespace MetricLayer

open Sql (Fragment)

/-! ## Faithful sessions -/

/-- A remembered member is the one that its path names, and a remembered definition is what an
evaluation from scratch gives. -/
structure FoundMember.Faithful (scope : CompileScope) (path : String) (e : FoundMember) : Prop where
  member : scope.repository.member path = .ok e.member
  compiled (c : Compiled) : e.compiled = some c →
    scope.evaluateOn scope.repository.memberCount [] e.member = .ok c

/-- A session remembers right answers only, and works on the given members. -/
structure Session.Faithful (scope : CompileScope) (stack : List String) (s : Session) : Prop where
  entries : ∀ entry ∈ s.entries, entry.2.Faithful scope entry.1
  resolving : s.resolving = stack

namespace Session

variable {scope : CompileScope} {stack : List String} {path : String} {member : Member} {s : Session}

/-- An empty session is faithful. -/
theorem faithful_empty (scope : CompileScope) : Session.empty.Faithful scope [] :=
  ⟨fun _ hentry => absurd hentry List.not_mem_nil, rfl⟩

namespace Faithful

variable (h : s.Faithful scope stack)

include h

/-- What a faithful session has noted for a path is true of it. -/
private theorem lookup {e : FoundMember} (he : s.entries.lookup path = some e) :
    e.Faithful scope path := by
  obtain ⟨before, after, hentries, -⟩ := List.lookup_eq_some_iff.1 he
  exact h.entries (path, e) (by simp [hentries])

/-- A member that a faithful session has found is the one at the path. -/
theorem found? (hm : s.found? path = some member) : scope.repository.member path = .ok member := by
  obtain ⟨e, he, rfl⟩ := Option.map_eq_some_iff.1 hm
  exact (h.lookup he).member

/-- What a faithful session has compiled is what the evaluation gives. -/
theorem compiled? (hm : scope.repository.member path = .ok member) {c : Compiled}
    (hc : s.compiled? path = some c) :
    scope.evaluateOn scope.repository.memberCount [] member = .ok c := by
  obtain ⟨e, he, hc⟩ := Option.bind_eq_some_iff.1 hc
  obtain rfl := Except.ok.inj (hm.symm.trans (h.lookup he).member)
  exact (h.lookup he).compiled c hc

/-- Noting a member that has been found keeps a session faithful. -/
theorem noteFound (hm : scope.repository.member path = .ok member) :
    (s.noteFound path member).Faithful scope stack := by
  refine ⟨fun entry hentry => ?_, h.resolving⟩
  rcases List.mem_append.1 hentry with hentry | hentry
  · exact h.entries entry hentry
  · obtain rfl := List.mem_singleton.1 hentry
    exact ⟨hm, nofun⟩

/-- Noting what the evaluation gives keeps a session faithful. -/
theorem noteCompiled (hm : scope.repository.member path = .ok member) {c : Compiled}
    (hc : scope.evaluateOn scope.repository.memberCount [] member = .ok c) :
    (s.noteCompiled path c).Faithful scope stack := by
  refine ⟨fun entry hentry => ?_, h.resolving⟩
  obtain ⟨⟨p, e⟩, he, rfl⟩ := List.mem_map.1 hentry
  have hfaithful := h.entries (p, e) he
  dsimp only
  split_ifs with hp
  · -- The path names one member, so the definition is noted with the member it belongs to.
    subst hp
    obtain rfl := Except.ok.inj (hm.symm.trans hfaithful.member)
    refine ⟨hfaithful.member, ?_⟩
    rintro _ ⟨⟩
    exact hc
  · exact hfaithful

/-- Starting on a member puts its path on the stack. -/
theorem enter (path : String) : (s.enter path).Faithful scope (stack ++ [path]) :=
  ⟨h.entries, congrArg (· ++ [path]) h.resolving⟩

omit h in
/-- Leaving a member takes its path off the stack. -/
theorem leave (h : s.Faithful scope (stack ++ [path])) : s.leave.Faithful scope stack := by
  refine ⟨h.entries, ?_⟩
  rw [Session.leave, h.resolving, List.dropLast_concat]

end Faithful

end Session

/-! ## Operations that end like computations without a session -/

/-- The second step starts from the session that the first one leaves. -/
theorem SessionM.run_bind {α β : Type} (x : SessionM α) (f : α → SessionM β) (s : Session) :
    (x >>= f).run.run s = match x.run.run s with
      | (.ok a, t) => (f a).run.run t
      | (.error e, t) => (.error e, t) := by
  rw [ExceptT.run_bind, StateT.run_bind]
  rcases x.run.run s with ⟨_ | a, t⟩ <;> rfl

/-- From every faithful session with the given stack, an operation leaves such a session and ends
like a computation without a session. -/
def sessionRelation (scope : CompileScope) (stack : List String) : MonadRelation SessionM Result where
  rel P x y := ∀ s, s.Faithful scope stack →
    outcomeRelation.rel P (x.run.run s).1 y ∧ (x.run.run s).2.Faithful scope stack
  pure h s hs := ⟨outcomeRelation.pure h, hs⟩
  bind := by
    intro α β γ δ P Q x y f g hxy hfg s hs
    obtain ⟨houtcome, ht⟩ := hxy s hs
    rw [SessionM.run_bind]
    generalize x.run.run s = step at houtcome ht
    obtain ⟨r, t⟩ := step
    -- Both first steps give a value, or both fail with one error.
    obtain ⟨a, b, rfl, rfl, hab⟩ | ⟨e, rfl, rfl⟩ := houtcome
    · exact hfg a b hab t ht
    · exact ⟨.inr ⟨e, rfl, rfl⟩, ht⟩
  throw e s hs := ⟨outcomeRelation.throw e, hs⟩

namespace CompileScope

variable {scope : CompileScope} {stack : List String} {bound : Nat} {member : Member}

/-- A faithful session finds what the repository has. -/
private theorem findIn_rel (scope : CompileScope) (stack : List String) (path : String) :
    (sessionRelation scope stack).rel (fun a b => a = b ∧ scope.repository.member path = .ok a)
      (scope.findIn path) (scope.repository.member path) := by
  intro s hs
  cases hfound : s.found? path with
  | some member =>
    have hm := hs.found? hfound
    rw [run_findIn_of_some hfound]
    exact ⟨.inl ⟨member, member, rfl, hm, rfl, hm⟩, hs⟩
  | none =>
    rw [run_findIn hfound]
    cases hm : scope.repository.member path with
    | ok member => exact ⟨.inl ⟨member, member, rfl, rfl, rfl, rfl⟩, hs.noteFound hm⟩
    | error e => exact ⟨.inr ⟨e, rfl, rfl⟩, hs⟩

/-- A member on the stack is refused, any other one is compiled with its path on the stack. -/
private theorem evaluating_rel {path : String} {x : SessionM Compiled} {y : Result Compiled}
    (h : path ∉ stack → (sessionRelation scope (stack ++ [path])).rel Eq x y) :
    (sessionRelation scope stack).rel Eq (SessionM.evaluating path x)
      (if path ∈ stack then .error (.cyclicReference (cycleThrough stack path)) else y) := by
  intro s hs
  by_cases hpath : path ∈ stack
  · rw [if_pos hpath, SessionM.run_evaluating_of_mem (hs.resolving ▸ hpath), hs.resolving]
    exact ⟨.inr ⟨_, rfl, rfl⟩, hs⟩
  · rw [if_neg hpath, SessionM.run_evaluating (hs.resolving ▸ hpath)]
    obtain ⟨houtcome, ht⟩ := h hpath _ (hs.enter path)
    exact ⟨houtcome, ht.leave⟩

/-- A remembered definition may be used on every trail, and one that has been worked out on a trail
may be remembered: a value does not depend on the trail. -/
private theorem remembering_rel (hm : scope.repository.IsMember member)
    (htrail : scope.IsTrail stack member.path)
    (hbound : scope.repository.memberCount ≤ bound + stack.length) {x : SessionM Compiled}
    (h : (sessionRelation scope stack).rel Eq x (scope.evaluateOn bound stack member)) :
    (sessionRelation scope stack).rel Eq (SessionM.remembering member.path x)
      (scope.evaluateOn bound stack member) := by
  intro s hs
  -- A remembered value is the one on every trail. Otherwise the value is worked out and noted.
  cases hc : s.compiled? member.path with
  | some c =>
    have hvalue := hs.compiled? hm.member_path hc
    rw [SessionM.run_remembering_of_some hc, evaluateOn_eq_ok_of_isTrail hm hvalue htrail hbound]
    exact ⟨.inl ⟨c, c, rfl, rfl, rfl⟩, hs⟩
  | none =>
    rw [SessionM.run_remembering hc]
    obtain ⟨houtcome, ht⟩ := h s hs
    generalize x.run.run s = step at houtcome ht
    obtain ⟨r, t⟩ := step
    obtain ⟨c, _, rfl, hvalue, rfl⟩ | ⟨e, rfl, herror⟩ := houtcome
    · have hscratch := evaluateOn_eq_ok_of_isTrail hm hvalue (scope.isTrail_nil _) le_rfl
      exact ⟨.inl ⟨c, c, rfl, hvalue, rfl⟩, ht.noteCompiled hm.member_path hscratch⟩
    · exact ⟨.inr ⟨e, rfl, herror⟩, ht⟩

/-- An evaluation in a session ends like one without memory, the stack being its trail. -/
private theorem evaluateIn_rel (hm : scope.repository.IsMember member)
    (htrail : scope.IsTrail stack member.path)
    (hbound : scope.repository.memberCount ≤ bound + stack.length) :
    (sessionRelation scope stack).rel Eq (scope.evaluateIn bound member)
      (scope.evaluateOn bound stack member) := by
  -- By induction on the bound. A definition asks for its references alone, and each of them is
  -- evaluated on the trail that the member has been added to.
  induction bound generalizing stack member with
  | zero =>
    refine remembering_rel hm htrail hbound fun s hs => ⟨.inr ⟨_, ?_, rfl⟩, hs⟩
    rw [← hs.resolving]
    rfl
  | succ bound ih =>
    refine remembering_rel hm htrail hbound (evaluating_rel fun hmem => ?_)
    have hfollows : Resolver.Follows (sessionRelation scope (stack ++ [member.path]))
        scope.repository (· ∈ scope.references member) ⟨scope.findIn, scope.evaluateIn bound⟩
        ⟨scope.repository.member, scope.evaluateOn bound (stack ++ [member.path])⟩ := by
      refine ⟨fun _ => scope.findIn_rel _ _, fun {q found} hq hfound => ?_⟩
      refine ih ⟨q, hfound⟩ (htrail.extend_references hm hmem hq hfound) ?_
      rw [List.length_append, List.length_singleton]
      omega
    exact hfollows.compile fun _ => id

/-- Evaluating a member in an empty session is evaluating it without memory. -/
theorem run_evaluateIn_empty (hm : scope.repository.IsMember member)
    (hbound : scope.repository.memberCount ≤ bound) :
    ((scope.evaluateIn bound member).run.run .empty).1 = scope.evaluateOn bound [] member :=
  eq_of_outcomeRelation
    (evaluateIn_rel hm (scope.isTrail_nil _) hbound _ (Session.faithful_empty scope)).1

/-- Members are evaluated within a bound that suffices. -/
theorem evaluate_eq_evaluateOn (hm : scope.repository.IsMember member) :
    scope.evaluate member = scope.evaluateOn scope.repository.memberCount [] member :=
  run_evaluateIn_empty hm le_rfl

/-- A member that has a value has the one that its definition gives with the values of its
references. -/
theorem compile_of_evaluate (hm : scope.repository.IsMember member) {c : Compiled}
    (h : scope.evaluate member = .ok c) : scope.resolver.compile scope member = .ok c := by
  rw [evaluate_eq_evaluateOn hm] at h
  obtain ⟨bound, hbound⟩ : ∃ bound, scope.repository.memberCount = bound + 1 := by
    refine Nat.exists_eq_succ_of_ne_zero fun hzero => ?_
    rw [hzero] at h
    cases h
  -- A reference that has a value on the trail of the member has this value without a trail.
  have hfollows : Resolver.Follows transferRelation scope.repository (· ∈ scope.references member)
      ⟨scope.repository.member, scope.evaluateOn bound [member.path]⟩ scope.resolver := by
    refine ⟨fun {q} _ found hfound => ⟨found, hfound, rfl, hfound⟩, ?_⟩
    intro q found _ hfound c' hc'
    refine ⟨c', ?_, rfl⟩
    change scope.evaluate found = .ok c'
    rw [evaluate_eq_evaluateOn ⟨q, hfound⟩]
    exact evaluateOn_eq_ok_of_isTrail ⟨q, hfound⟩ hc' (scope.isTrail_nil _) le_rfl
  rw [hbound, evaluateOn, if_neg List.not_mem_nil] at h
  obtain ⟨_, hc, rfl⟩ := hfollows.compile (fun _ => id) c h
  exact hc

/-- The resolver of a session answers like the one that starts each evaluation with nothing
remembered. -/
theorem sessionResolver_follows (scope : CompileScope) :
    Resolver.Follows (sessionRelation scope []) scope.repository (fun _ => True)
      scope.sessionResolver scope.resolver where
  find _ := scope.findIn_rel [] _
  evaluate {path member} _ hmember := by
    have hm : scope.repository.IsMember member := ⟨path, hmember⟩
    change (sessionRelation scope []).rel Eq _ (scope.evaluate member)
    rw [evaluate_eq_evaluateOn hm]
    exact evaluateIn_rel hm (scope.isTrail_nil _) le_rfl

end CompileScope

/-! ## What can be asked of a session -/

/-- A question to a session: about the member that a path names, or about a join. -/
inductive SessionOp
  | member (path : String)
  /-- The expression of a dimension at the model level, of a metric at the segment level. -/
  | sql (path : String)
  | segmentSql (path : String)
  | segmentGroup (path : String)
  | projections (path : String)
  | models (path : String)
  | rootSql (layout : RootLayout) (path : String)
  | filterSql (level : Level) (path : String)
  | joinCondition (join : Join)

/-- What is answered to a question. -/
inductive SessionAnswer
  | member (m : Member)
  | sql (f : Fragment)
  | group (f : Option Fragment)
  | projections (ps : List Projection)
  | models (names : List String)
  | condition (f : Fragment) (ps : List Projection)

namespace SessionOp

/-- Answer a question by means of a resolver. A question about a member starts by finding it. -/
def perform {m : Type → Type} [Monad m] [MonadExcept Error m] (r : Resolver m)
    (scope : CompileScope) : SessionOp → m SessionAnswer
  | .member path => do return .member (← r.find path)
  | .sql path => do return .sql (← r.evaluate (← r.find path)).sql
  | .segmentSql path => do return .sql (← r.segmentSql scope (← r.find path))
  | .segmentGroup path => do return .group (← r.segmentGroup scope (← r.find path))
  | .projections path => do return .projections (← r.evaluate (← r.find path)).projections
  | .models path => do return .models (← r.evaluate (← r.find path)).models
  | .rootSql layout path => do return .sql (← Resolver.rootSql scope layout (← r.find path))
  | .filterSql level path => do return .sql (← r.filterSql scope level (← r.find path))
  | .joinCondition join => do
    let found ← r.joinCondition scope join
    return .condition found.1 found.2

end SessionOp

namespace Resolver.Follows

variable {m n : Type → Type} [Monad m] [Monad n] [MonadExcept Error m] [MonadExcept Error n]
  {M : MonadRelation m n} {scope : CompileScope} {r : Resolver m} {r' : Resolver n}

/-- A computation is related to itself in another monad. -/
private theorem rootSql (M : MonadRelation m n) (layout : RootLayout) (member : Member) :
    M.rel Eq (Resolver.rootSql scope layout member) (Resolver.rootSql scope layout member) := by
  rw [Resolver.rootSql, Resolver.rootSql]
  split_ifs
  · split
    · exact M.pure rfl
    · exact M.throw_bind
  · exact M.pure rfl

variable (hr : r.Follows M scope.repository (fun _ => True) r') {path : String} {member : Member}

include hr

/-- A faithful session writes a member at the segment level as a fresh one does. -/
private theorem segmentSql (hm : scope.repository.member path = .ok member) :
    M.rel Eq (r.segmentSql scope member) (r'.segmentSql scope member) := by
  rw [Resolver.segmentSql, Resolver.segmentSql]
  split_ifs
  · refine M.bind (hr.evaluate trivial hm) ?_
    rintro c _ rfl
    exact M.pure rfl
  · exact M.pure rfl

/-- A faithful session groups by a member as a fresh one does. -/
private theorem segmentGroup (hm : scope.repository.member path = .ok member) :
    M.rel Eq (r.segmentGroup scope member) (r'.segmentGroup scope member) := by
  rw [Resolver.segmentGroup, Resolver.segmentGroup]
  split_ifs
  · exact M.pure rfl
  · refine M.bind (hr.segmentSql hm) ?_
    rintro f _ rfl
    exact M.pure rfl

/-- A faithful session writes a member in filters as a fresh one does. -/
private theorem filterSql (level : Level) (hm : scope.repository.member path = .ok member) :
    M.rel Eq (r.filterSql scope level member) (r'.filterSql scope level member) := by
  cases level with
  | model =>
    rw [Resolver.filterSql, Resolver.filterSql]
    split_ifs
    · exact M.throw _
    · refine M.bind (hr.evaluate trivial hm) ?_
      rintro c _ rfl
      exact M.pure rfl
  | segment => exact hr.segmentSql hm
  | root layout => exact rootSql M layout member

/-- A faithful session writes a part of a join condition as a fresh one does. -/
private theorem conditionPart (join : Join) (part : TemplatePart) :
    M.rel Eq (r.conditionPart scope join part) (r'.conditionPart scope join part) := by
  cases part with
  | dimension path =>
    refine M.bind (hr.find trivial) ?_
    rintro found _ ⟨rfl, hfound⟩
    refine M.check (M.check (M.bind (hr.evaluate trivial hfound) ?_))
    rintro c _ rfl
    exact M.pure rfl
  | column name | metric path => exact M.throw _
  | sql text | value v | identifier name => exact M.pure rfl

/-- A faithful session writes a join condition as a fresh one does. -/
private theorem joinCondition (join : Join) :
    M.rel Eq (r.joinCondition scope join) (r'.joinCondition scope join) := by
  rw [Resolver.joinCondition, Resolver.joinCondition]
  generalize ((.empty, []) : Fragment × List Projection) = found
  induction join.template scope.context generalizing found with
  | nil => exact M.pure rfl
  | cons part rest ih =>
    refine M.bind (hr.conditionPart join part) ?_
    rintro next _ rfl
    exact ih _

/-- A question about a member is answered alike if the member is asked alike. -/
private theorem ask {α : Type} (f : Member → m α) (g : Member → n α) (answer : α → SessionAnswer)
    (hfg : ∀ member, scope.repository.member path = .ok member → M.rel Eq (f member) (g member)) :
    M.rel Eq (do return answer (← f (← r.find path))) (do return answer (← g (← r'.find path))) := by
  refine M.bind (hr.find trivial) ?_
  rintro found _ ⟨rfl, hfound⟩
  refine M.bind (hfg found hfound) ?_
  rintro a _ rfl
  exact M.pure rfl

/-- Resolvers that answer alike give the same answers to all questions. -/
theorem perform (op : SessionOp) : M.rel Eq (op.perform r scope) (op.perform r' scope) := by
  cases op with
  | member path =>
    refine M.bind (hr.find trivial) ?_
    rintro found _ ⟨rfl, -⟩
    exact M.pure rfl
  | sql path => exact hr.ask _ _ (.sql ·.sql) fun _ => hr.evaluate trivial
  | projections path => exact hr.ask _ _ (.projections ·.projections) fun _ => hr.evaluate trivial
  | models path => exact hr.ask _ _ (.models ·.models) fun _ => hr.evaluate trivial
  | segmentSql path => exact hr.ask _ _ .sql fun _ => hr.segmentSql
  | segmentGroup path => exact hr.ask _ _ .group fun _ => hr.segmentGroup
  | rootSql layout path => exact hr.ask _ _ .sql fun found _ => rootSql M layout found
  | filterSql level path => exact hr.ask _ _ .sql fun _ => hr.filterSql level
  | joinCondition join =>
    refine M.bind (hr.joinCondition join) ?_
    rintro c _ rfl
    exact M.pure rfl

end Resolver.Follows

/-! ## Histories -/

namespace CompileScope

/-- Ask a session one question: the answer or the error, and the session afterwards. -/
def ask (scope : CompileScope) (s : Session) (op : SessionOp) : Result SessionAnswer × Session :=
  (op.perform scope.sessionResolver scope).run.run s

/-- Ask a session one question after the other, errors or not. -/
def history (scope : CompileScope) : Session → List SessionOp →
    List (Result SessionAnswer × Session)
  | _, [] => []
  | s, op :: rest => scope.ask s op :: scope.history (scope.ask s op).2 rest

/-- One question leaves a session faithful and is answered as without a session. -/
private theorem ask_of_faithful {scope : CompileScope} {s : Session} (hs : s.Faithful scope [])
    (op : SessionOp) : (scope.ask s op).1 = op.perform scope.resolver scope ∧
      (scope.ask s op).2.Faithful scope [] := by
  obtain ⟨houtcome, hleft⟩ := scope.sessionResolver_follows.perform op s hs
  exact ⟨eq_of_outcomeRelation houtcome, hleft⟩

/-- From a faithful session on, every answer is that of a fresh one. -/
private theorem history_of_faithful {scope : CompileScope} {s : Session} (hs : s.Faithful scope [])
    (ops : List SessionOp) :
    (scope.history s ops).map (·.1) = ops.map (SessionOp.perform scope.resolver scope) ∧
      ∀ step ∈ scope.history s ops, step.2.resolving = [] := by
  induction ops generalizing s with
  | nil => simp [history]
  | cons op rest ih =>
    obtain ⟨hanswer, hleft⟩ := ask_of_faithful hs op
    obtain ⟨hrest, hstacks⟩ := ih hleft
    rw [history, List.map_cons, List.map_cons, hanswer, hrest]
    exact ⟨rfl, List.forall_mem_cons.2 ⟨hleft.resolving, hstacks⟩⟩

/-- Whatever a session has been asked before, and whatever has failed, every question is answered
as if it were the first, and no member stays under evaluation. -/
theorem answers_history_eq (scope : CompileScope) (ops : List SessionOp) :
    (scope.history .empty ops).map (·.1) = ops.map (fun op => (scope.ask .empty op).1) ∧
      ∀ step ∈ scope.history .empty ops, step.2.resolving = [] := by
  have hempty := Session.faithful_empty scope
  obtain ⟨hanswers, hstacks⟩ := history_of_faithful hempty ops
  refine ⟨hanswers.trans (List.map_congr_left fun op _ => ?_), hstacks⟩
  exact (ask_of_faithful hempty op).1.symm

end CompileScope

end MetricLayer
