import MetricLayer.Member.Level
import MetricLayer.Reachable

/-!
# Evaluating definitions

The definition of a member may refer to other members. They are evaluated in turn, with the
members under evaluation kept as a trail; a member that is met again on its own trail closes a
circle, which is an error.
-/

namespace MetricLayer

/-- The circle that a member closes: the trail from its first occurrence on, and the member. -/
def cycleThrough (trail : List String) (path : String) : List String :=
  trail.dropWhile (· ≠ path) ++ [path]

namespace CompileScope

/-- Evaluate the definition of a member, given the trail of members under evaluation. The first
argument bounds the length of the trail; a trail as long as there are members must close. -/
def evaluateOn (scope : CompileScope) : (bound : Nat) → (trail : List String) → Member →
    Result Compiled
  | 0, trail, member => .error (.cyclicReference (cycleThrough trail member.path))
  | bound + 1, trail, member =>
    if member.path ∈ trail then .error (.cyclicReference (cycleThrough trail member.path))
    else
      Resolver.compile ⟨scope.repository.member, scope.evaluateOn bound (trail ++ [member.path])⟩
        scope member

/-- The path that a part of a definition refers to, in a definition of the given model. -/
def reference? (scope : CompileScope) (model : String) : TemplatePart → Option String
  | .dimension reference | .metric reference => some (scope.qualify model reference)
  | .sql _ | .value _ | .identifier _ | .column _ => none

/-- The paths that the definition of a member refers to. -/
def references (scope : CompileScope) : Member → List String
  | .dimension model d =>
    (d.template ⟨model.name, scope.context⟩).filterMap (scope.reference? model.name)
  | .metric model x =>
    (x.definition ⟨model.name, scope.context⟩).filterMap (scope.reference? model.name)
  | .granularity model d _ | .aggregate model d _ => [(Member.dimension model d).path]

/-- The paths that the definition of the member at a path refers to. -/
def referencesAt (scope : CompileScope) (path : String) : List String :=
  match scope.repository.member path with
  | .ok member => scope.references member
  | .error _ => []

/-- The given paths and all that their definitions refer to, directly or not. -/
def footprint (scope : CompileScope) (paths : List String) : List String :=
  reachedFrom scope.referencesAt scope.repository.memberCount (distinct paths) (distinct paths)

end CompileScope

end MetricLayer
