import MetricLayer.Json.Basic

/-!
# SQL templates

The definition of a member or of a join condition is a template: literal SQL between typed
references to columns, members and bound values. The references are resolved once for each nesting
level of the compiled statement, so one definition serves all levels.
-/

namespace MetricLayer

/-- One part of a template. -/
inductive TemplatePart
  /-- Literal SQL, emitted as it is. -/
  | sql (text : String)
  /-- A bound value. -/
  | value (value : Json)
  /-- A quoted identifier. -/
  | identifier (name : String)
  /-- A column of the owning model's source. -/
  | column (name : String)
  /-- A dimension, by its name or its path. -/
  | dimension (reference : String)
  /-- A metric, by its name or its path. -/
  | metric (reference : String)
deriving DecidableEq, Repr

/-- A template is the list of its parts. -/
abbrev Template := List TemplatePart

/-- What the definition of a member may depend on. -/
structure MemberScope where
  /-- The name of the model that owns the member. -/
  model : String
  /-- The context of the compile. -/
  context : Json

/-- What a join condition may depend on. -/
structure JoinScope where
  /-- The model that the join leads away from. -/
  origin : String
  /-- The model that the join leads to. -/
  target : String
  /-- The context of the compile. -/
  context : Json

namespace JoinScope

/-- A dimension of the model that the join leads away from. -/
def originDimension (scope : JoinScope) (name : String) : TemplatePart :=
  .dimension (scope.origin ++ "." ++ name)

/-- A dimension of the model that the join leads to. -/
def targetDimension (scope : JoinScope) (name : String) : TemplatePart :=
  .dimension (scope.target ++ "." ++ name)

end JoinScope

end MetricLayer
