import MetricLayer.Member.Evaluate

/-!
# Sessions

A session remembers the members it has found and the definitions it has evaluated, so that each is
worked out once. It also keeps the members under evaluation, on a stack that every evaluation leaves
as it was, be it a success or a failure. What a session answers does not depend on what it
remembers.
-/

namespace MetricLayer

/-- A member that a session has found. -/
structure FoundMember where
  /-- The member. -/
  member : Member
  /-- Its evaluated definition, once there is one. -/
  compiled : Option Compiled := none

/-- What a session remembers, and what it is working on. -/
structure Session where
  /-- The remembered members under their paths, in the order in which they were found. -/
  entries : List (String × FoundMember)
  /-- The paths of the members under evaluation, the outermost first. -/
  resolving : List String

namespace Session

/-- A session that remembers nothing. -/
def empty : Session := ⟨[], []⟩

/-- The number of remembered members. -/
def size (s : Session) : Nat := s.entries.length

/-- The remembered member with a path. -/
def found? (s : Session) (path : String) : Option Member :=
  (s.entries.lookup path).map (·.member)

/-- The remembered definition of a member. -/
def compiled? (s : Session) (path : String) : Option Compiled :=
  (s.entries.lookup path).bind (·.compiled)

/-- Remember a member that has not been found before. -/
def noteFound (s : Session) (path : String) (member : Member) : Session :=
  { s with entries := s.entries ++ [(path, { member })] }

/-- Remember the evaluated definition of a member that has been found. -/
def noteCompiled (s : Session) (path : String) (c : Compiled) : Session :=
  { s with entries := s.entries.map fun (p, entry) =>
      (p, if p = path then { entry with compiled := some c } else entry) }

/-- Put a member on the stack. -/
def enter (s : Session) (path : String) : Session :=
  { s with resolving := s.resolving ++ [path] }

/-- Take the topmost member off the stack. -/
def leave (s : Session) : Session :=
  { s with resolving := s.resolving.dropLast }

end Session

/-- An operation on a session. What it learned before it failed stays remembered. -/
abbrev SessionM := ExceptT Error (StateM Session)

namespace SessionM

/-- A result as an operation that leaves the session as it is. -/
def ofResult {α : Type} (r : Result α) : SessionM α :=
  match r with
  | .ok a => pure a
  | .error e => throw e

/-- An operation for a member that is on the stack meanwhile and is taken off it in any case. A
member that is on the stack already closes a circle. -/
def evaluating {α : Type} (path : String) (operation : SessionM α) : SessionM α := do
  let stack := (← get).resolving
  if path ∈ stack then throw (.cyclicReference (cycleThrough stack path))
  modify (·.enter path)
  let outcome ← (ExceptT.lift operation.run : SessionM (Result α))
  modify (·.leave)
  ofResult outcome

/-- The remembered definition of a member, or that which an operation works out for it, which is
remembered from now on. -/
def remembering (path : String) (operation : SessionM Compiled) : SessionM Compiled := do
  match (← get).compiled? path with
  | some c => return c
  | none =>
    let c ← operation
    modify (·.noteCompiled path c)
    return c

variable {α : Type} {path : String} {operation : SessionM α} {s : Session}

/-- A member that is being compiled already is refused, and the session stays as it is. -/
theorem run_evaluating_of_mem (h : path ∈ s.resolving) :
    (evaluating path operation).run.run s =
      (.error (.cyclicReference (cycleThrough s.resolving path)), s) := by
  change ((if path ∈ s.resolving then _ else _ : SessionM α)).run.run s = _
  rw [if_pos h]
  rfl

/-- A member that is not being compiled is noted as such while the operation runs. -/
theorem run_evaluating (h : path ∉ s.resolving) : (evaluating path operation).run.run s =
    ((operation.run.run (s.enter path)).1, (operation.run.run (s.enter path)).2.leave) := by
  change ((if path ∈ s.resolving then _ else _ : SessionM α)).run.run s = _
  rw [if_neg h]
  change (ofResult (operation.run.run (s.enter path)).1).run.run
    (operation.run.run (s.enter path)).2.leave = _
  cases (operation.run.run (s.enter path)).1 <;> rfl

/-- What has been compiled is not compiled again. -/
theorem run_remembering_of_some {operation : SessionM Compiled} {c : Compiled}
    (h : s.compiled? path = some c) : (remembering path operation).run.run s = (.ok c, s) := by
  change (match s.compiled? path with | some c => pure c | none => _ : SessionM Compiled).run.run s = _
  rw [h]
  rfl

/-- What is compiled for the first time is noted, unless it fails. -/
theorem run_remembering {operation : SessionM Compiled} (h : s.compiled? path = none) :
    (remembering path operation).run.run s = match operation.run.run s with
      | (.ok c, t) => (.ok c, t.noteCompiled path c)
      | (.error e, t) => (.error e, t) := by
  change (match s.compiled? path with | some c => pure c | none => _ : SessionM Compiled).run.run s = _
  rw [h]
  change (operation >>= _).run.run s = _
  rw [ExceptT.run_bind, StateT.run_bind]
  cases operation.run.run s with
  | mk r t => cases r <;> rfl

end SessionM

namespace CompileScope

/-- The member that a path names, remembered from now on. -/
def findIn (scope : CompileScope) (path : String) : SessionM Member := do
  match (← get).found? path with
  | some member => return member
  | none =>
    let member ← SessionM.ofResult (scope.repository.member path)
    modify (·.noteFound path member)
    return member

/-- A member that has been found is not looked for again. -/
theorem run_findIn_of_some {scope : CompileScope} {path : String} {s : Session} {member : Member}
    (h : s.found? path = some member) : (scope.findIn path).run.run s = (.ok member, s) := by
  change (match s.found? path with | some m => pure m | none => _ : SessionM Member).run.run s = _
  rw [h]
  rfl

/-- A member that is looked for for the first time is noted, unless there is none. -/
theorem run_findIn {scope : CompileScope} {path : String} {s : Session}
    (h : s.found? path = none) :
    (scope.findIn path).run.run s = match scope.repository.member path with
      | .ok member => (.ok member, s.noteFound path member)
      | .error e => (.error e, s) := by
  change (match s.found? path with | some m => pure m | none => _ : SessionM Member).run.run s = _
  rw [h]
  cases scope.repository.member path <;> rfl

/-- Evaluate the definition of a member unless it is remembered, as `evaluateOn` does, with the stack
of the session as the trail. -/
def evaluateIn (scope : CompileScope) : (bound : Nat) → Member → SessionM Compiled
  | 0, member => SessionM.remembering member.path do
    throw (.cyclicReference (cycleThrough (← get).resolving member.path))
  | bound + 1, member => SessionM.remembering member.path <| SessionM.evaluating member.path <|
    Resolver.compile ⟨scope.findIn, scope.evaluateIn bound⟩ scope member

/-- Members and definitions are taken from the session where it remembers them. -/
def sessionResolver (scope : CompileScope) : Resolver SessionM :=
  ⟨scope.findIn, scope.evaluateIn scope.repository.memberCount⟩

/-- Evaluate the definition of a member, and every definition that it refers to once. -/
def evaluate (scope : CompileScope) (member : Member) : Result Compiled :=
  ((scope.sessionResolver.evaluate member).run.run Session.empty).1

/-- Members are found in the repository, and each evaluation starts with nothing remembered. -/
def resolver (scope : CompileScope) : Resolver Result :=
  ⟨scope.repository.member, scope.evaluate⟩

end CompileScope

end MetricLayer
