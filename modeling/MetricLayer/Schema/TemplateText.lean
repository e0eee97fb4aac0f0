import MetricLayer.Json.Pointer
import MetricLayer.Schema.Template
import MetricLayer.Text.Blank
import MetricLayer.Text.Word

/-!
# Templates as text

A schema file writes a template as SQL text with placeholders. A placeholder is a word and an
argument, divided by a colon, between braces. The text is first cut into chunks: the placeholders
are found from left to right and do not overlap, and the text between two of them is one literal
chunk. Then each placeholder is read according to its word; which words are allowed depends on
whether the template defines a member or a join condition.
-/

namespace MetricLayer

/-- What a template defines. -/
inductive TemplateUse
  | member
  | join
deriving DecidableEq, Repr

/-- One piece of a template text. -/
inductive TextPiece
  /-- Literal SQL. -/
  | sql (text : String)
  /-- A column of the owning model's source. -/
  | column (name : String)
  /-- A dimension, by its name or its path. -/
  | dimension (reference : String)
  /-- A metric, by its name or its path. -/
  | metric (reference : String)
  /-- A quoted identifier. -/
  | identifier (name : String)
  /-- The value at a pointer into the compile context. -/
  | context (pointer : String)
  /-- A dimension of the model that the join leads away from. -/
  | origin (name : String)
  /-- A dimension of the model that the join leads to. -/
  | target (name : String)
deriving DecidableEq, Repr

/-- Why a placeholder is not allowed. -/
inductive TemplateFault
  | unknownWord (word : String)
  | notInJoin (word : String)
  | onlyInJoin (word : String)
  /-- A pointer into the compile context without its leading slash. -/
  | pointerStart (pointer : String)
deriving DecidableEq, Repr

/-- The fault in words. -/
def TemplateFault.message : TemplateFault → String
  | .unknownWord word => s!"unknown placeholder '{word}'"
  | .notInJoin word => s!"'{word}' is not allowed in a join condition"
  | .onlyInJoin word => s!"'{word}' is only allowed in a join condition"
  | .pointerStart pointer => s!"context pointer '{pointer}' must start with '/'"

namespace TemplateText

/-! ## Chunks -/

/-- A part of a template text before its placeholders are read. -/
inductive Chunk
  | literal (text : List Char)
  | placeholder (word argument : List Char)
deriving DecidableEq, Repr

/-- Whether a character may stand in the argument of a placeholder. -/
def isArgument (c : Char) : Bool :=
  c ≠ '\x7b' && c ≠ '\x7d'

/-- The placeholder at the front of a text, as its word, its argument and the text after it. -/
def placeholder? : List Char → Option (List Char × List Char × List Char)
  | '\x7b' :: text =>
    match text.takeWhile Text.isWord, text.dropWhile Text.isWord with
    | w :: word, ':' :: text =>
      match text.takeWhile isArgument, text.dropWhile isArgument with
      | a :: argument, '\x7d' :: rest => some (w :: word, a :: argument, rest)
      | _, _ => none
    | _, _ => none
  | _ => none

/-- A text with a placeholder at its front is the placeholder followed by the rest. -/
theorem eq_of_placeholder?_eq_some {text word argument rest : List Char}
    (h : placeholder? text = some (word, argument, rest)) :
    text = '\x7b' :: word ++ ':' :: argument ++ '\x7d' :: rest := by
  unfold placeholder? at h
  split at h
  · next inner =>
    split at h
    · next w word' inner' hword hrest =>
      split at h
      · next a argument' rest' hargument hrest' =>
        simp only [Option.some.injEq, Prod.mk.injEq] at h
        obtain ⟨rfl, rfl, rfl⟩ := h
        have h₁ := List.takeWhile_append_dropWhile (p := Text.isWord) (l := inner)
        have h₂ := List.takeWhile_append_dropWhile (p := isArgument) (l := inner')
        rw [hword, hrest] at h₁
        rw [hargument, hrest'] at h₂
        rw [← h₁, ← h₂]
        simp
      · simp at h
    · simp at h
  · simp at h

/-- The rest after a placeholder is shorter than the text. -/
theorem length_lt_of_placeholder?_eq_some {text word argument rest : List Char}
    (h : placeholder? text = some (word, argument, rest)) : rest.length < text.length := by
  rw [eq_of_placeholder?_eq_some h]
  simp only [List.cons_append, List.length_cons, List.length_append]
  omega

/-- Chunks with one more literal character in front. -/
def addLiteral (c : Char) : List Chunk → List Chunk
  | .literal text :: chunks => .literal (c :: text) :: chunks
  | chunks => .literal [c] :: chunks

/-- The chunks of a text: placeholders from left to right, and the literal text between them. -/
def chunks (text : List Char) : List Chunk :=
  match h : placeholder? text with
  | some (word, argument, rest) =>
    have := length_lt_of_placeholder?_eq_some h
    .placeholder word argument :: chunks rest
  | none =>
    match text with
    | [] => []
    | c :: rest => addLiteral c (chunks rest)
termination_by text.length

/-! ## Pieces -/

/-- Whether a text is empty or starts with a slash. -/
def isPointer (text : String) : Bool :=
  match text.toList with
  | [] => true
  | c :: _ => c = '/'

/-- The piece that a placeholder stands for. -/
def readPlaceholder (use : TemplateUse) (word argument : String) : Except TemplateFault TextPiece :=
  if word = "dimension" then .ok (.dimension argument)
  else if word = "identifier" then .ok (.identifier argument)
  else if word = "context" then
    if isPointer argument then .ok (.context argument)
    else .error (.pointerStart argument)
  else if word = "column" then
    match use with
    | .member => .ok (.column argument)
    | .join => .error (.notInJoin word)
  else if word = "metric" then
    match use with
    | .member => .ok (.metric argument)
    | .join => .error (.notInJoin word)
  else if word = "from" then
    match use with
    | .member => .error (.onlyInJoin word)
    | .join => .ok (.origin argument)
  else if word = "to" then
    match use with
    | .member => .error (.onlyInJoin word)
    | .join => .ok (.target argument)
  else .error (.unknownWord word)

/-- The piece of a chunk. White space around the argument of a placeholder does not count. -/
def readChunk (use : TemplateUse) : Chunk → Except TemplateFault TextPiece
  | .literal text => .ok (.sql (String.ofList text))
  | .placeholder word argument =>
    readPlaceholder use (String.ofList word) (String.ofList (Text.trim argument))

/-- The pieces of a template text, or the fault of its first placeholder that is not allowed. -/
def parse (use : TemplateUse) (text : String) : Except TemplateFault (List TextPiece) :=
  (chunks text.toList).mapM (readChunk use)

/-! ## Printing -/

/-- A placeholder as text. -/
def printPlaceholder (word argument : String) : String :=
  "\x7b" ++ word ++ ":" ++ argument ++ "\x7d"

/-- A piece as text. -/
def printPiece : TextPiece → String
  | .sql text => text
  | .column name => printPlaceholder "column" name
  | .dimension reference => printPlaceholder "dimension" reference
  | .metric reference => printPlaceholder "metric" reference
  | .identifier name => printPlaceholder "identifier" name
  | .context pointer => printPlaceholder "context" pointer
  | .origin name => printPlaceholder "from" name
  | .target name => printPlaceholder "to" name

/-- The text of a list of pieces. -/
def print (pieces : List TextPiece) : String :=
  String.join (pieces.map printPiece)

/-! ## Templates -/

/-- The part of a template that a piece stands for. The sides of a join have no meaning outside of
a join condition. -/
def part? (context : Json) (join : Option JoinScope) : TextPiece → Option TemplatePart
  | .sql text => some (.sql text)
  | .column name => some (.column name)
  | .dimension reference => some (.dimension reference)
  | .metric reference => some (.metric reference)
  | .identifier name => some (.identifier name)
  | .context pointer => some (.value ((context.pointer? pointer).getD .null))
  | .origin name => join.map (·.originDimension name)
  | .target name => join.map (·.targetDimension name)

/-- The template of a member. -/
def memberTemplate (pieces : List TextPiece) (scope : MemberScope) : Template :=
  pieces.filterMap (part? scope.context none)

/-- The template of a join condition. -/
def joinTemplate (pieces : List TextPiece) (scope : JoinScope) : Template :=
  pieces.filterMap (part? scope.context (some scope))

end TemplateText

end MetricLayer
