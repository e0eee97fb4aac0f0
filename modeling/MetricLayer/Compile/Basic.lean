import MetricLayer.Compile.Assembly

/-!
# Compiling a query

From a query to SQL text in the placeholders of a dialect, with the values bound to them in order.
-/

namespace MetricLayer

/-- SQL text with the values bound to its placeholders. -/
structure CompiledQuery where
  /-- The text. -/
  sql : String
  /-- The bound values, in order. -/
  bindings : List Json
deriving DecidableEq, Repr

/-- Why a query has no compiled form. -/
inductive CompileError
  | invalid (error : Error)
  /-- Literal SQL of the schema holds binding marks of its own. -/
  | bindingMismatch (marks bindings : Nat)
deriving DecidableEq, Repr

/-- The words for a failed compile. -/
def CompileError.message : CompileError → String
  | .invalid error => error.message
  | .bindingMismatch marks bindings =>
    "SQL has " ++ Nat.repr marks ++ " placeholders but " ++ Nat.repr bindings ++ " bindings"

/-- Compile a query, on one line or over several. -/
def CompileScope.compile (scope : CompileScope) (pretty : Bool) (query : Query) :
    Except CompileError CompiledQuery :=
  match scope.statement query with
  | .error e => .error (.invalid e)
  | .ok statement =>
    let fragment := statement.render scope.dialect ⟨pretty, 0⟩
    if fragment.markCount ≠ fragment.bindings.length then
      .error (.bindingMismatch fragment.markCount fragment.bindings.length)
    else .ok ⟨scope.dialect.placeholders fragment.sql, fragment.bindings⟩

end MetricLayer
