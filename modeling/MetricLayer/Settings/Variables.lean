import MetricLayer.Text.Word

/-!
# Environment variables in text

A text may refer to environment variables, as `$NAME` or with the name between braces. Expanding the
text replaces every reference by the value of its variable, once and from left to right: a value is
inserted as it is, whatever it contains.
-/

namespace MetricLayer.Variables

/-- A part of a text with references. -/
inductive Chunk
  /-- A character that stands for itself. -/
  | literal (c : Char)
  /-- A reference to a variable. -/
  | reference (name : List Char)
deriving DecidableEq, Repr

/-- Whether a character belongs to a name that is written without braces. -/
def isName (c : Char) : Bool :=
  Text.isAlphanumeric c || c = '_'

/-- Whether a character belongs to a name between braces. -/
def isBraced (c : Char) : Bool :=
  c ≠ '\x7d'

/-- The chunks of a text. A dollar sign that no name follows stands for itself, and a name whose
closing brace is missing reaches to the end of the text. -/
def chunks : List Char → List Chunk
  | [] => []
  | '$' :: '\x7b' :: rest =>
    .reference (rest.takeWhile isBraced) :: chunks ((rest.dropWhile isBraced).drop 1)
  | '$' :: rest =>
    if (rest.takeWhile isName).isEmpty then .literal '$' :: chunks rest
    else .reference (rest.takeWhile isName) :: chunks (rest.dropWhile isName)
  | c :: rest => .literal c :: chunks rest
termination_by text => text.length
decreasing_by
  all_goals
    simp only [List.length_drop, List.length_cons]
    have := fun p : Char → Bool => (List.dropWhile_sublist p (l := rest)).length_le
    grind

/-- The names of the variables that a text refers to, in order. -/
def references (text : String) : List String :=
  (chunks text.toList).filterMap fun
    | .literal _ => none
    | .reference name => some (String.ofList name)

/-- The text of a chunk under an environment, or the name of its missing variable. -/
def expandChunk (value? : String → Option String) : Chunk → Except String (List Char)
  | .literal c => .ok [c]
  | .reference name =>
    match value? (String.ofList name) with
    | some value => .ok value.toList
    | none => .error (String.ofList name)

/-- A text with its references replaced, or the name of the first missing variable. -/
def expand (value? : String → Option String) (text : String) : Except String String := do
  let parts ← (chunks text.toList).mapM (expandChunk value?)
  return String.ofList parts.flatten

end MetricLayer.Variables
