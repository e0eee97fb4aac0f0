import MetricLayer.CommandLine.Help
import MetricLayer.Compile.Basic
import MetricLayer.Json.Reader
import MetricLayer.Query.Json
import MetricLayer.Repository.File
import MetricLayer.Settings.Basic

/-!
# Running a command

What a run prints and how it ends, as a function of its arguments and its surroundings. The settings
are read first, then the schema, the context and the query; the first failure ends the run.
-/

namespace MetricLayer.CommandLine

/-- Why a command failed. -/
inductive RunError
  | settings (error : SettingsError)
  | noSchema
  | schemaPath (error : SettingsError)
  | schema (path : String) (error : SchemaFileError)
  /-- The compile context is not JSON. -/
  | context
  | queryFile (path : String)
  /-- The query does not decode. -/
  | request
  | compile (error : CompileError)
deriving DecidableEq, Repr

/-- The words for a failed command. -/
def RunError.message : RunError → String
  | .settings error => "Error loading settings: " ++ error.message
  | .noSchema => "No schema given: pass --schema or set [schema] path in semlayer.toml"
  | .schemaPath error => "Error resolving schema path: " ++ error.message
  | .schema path error => "Error loading schema '" ++ path ++ "': " ++ error.message
  | .context => "Invalid --context JSON: not a JSON text"
  | .queryFile path => "Error reading query file '" ++ path ++ "': not a readable text file"
  | .request => "Compilation error: Invalid request: not a query"
  | .compile error => "Compilation error: " ++ error.message

/-- How a run ended. -/
inductive Outcome
  /-- With a text on standard output. -/
  | printed (output : String)
  | failed (error : RunError)
  | refused (error : UsageError)
deriving DecidableEq, Repr

namespace Outcome

/-- The exit code of a run. -/
def code : Outcome → Nat
  | .printed _ => 0
  | .failed _ => 1
  | .refused _ => 2

/-- The text on standard output. -/
def output : Outcome → String
  | .printed output => output
  | .failed _ | .refused _ => ""

/-- The text on standard error. -/
def diagnostics : Outcome → String
  | .printed _ => ""
  | .failed error => error.message ++ "\n"
  | .refused .missingCommand => programHelp
  | .refused error => error.message ++ "\n"

end Outcome

/-- A compiled query as JSON. -/
def encodeCompiled (compiled : CompiledQuery) : Json :=
  .object [("sql", .string compiled.sql), ("bindings", .array compiled.bindings)]

/-- A compiled query as printed. The comment on its bindings is left out where there are none. -/
def OutputFormat.render (format : OutputFormat) (compiled : CompiledQuery) : String :=
  match format with
  | .json => (encodeCompiled compiled).pretty ++ "\n"
  | .sql =>
    if compiled.bindings.isEmpty then compiled.sql ++ "\n"
    else compiled.sql ++ "\n-- bindings: " ++ (Json.array compiled.bindings).compact ++ "\n"

/-- Whether the text of a query is the query itself, and not the path of its file. -/
def isInline (query : String) : Bool :=
  (Text.trimStart query.toList).head? = some '\x7b'

section

variable {m : Type → Type} [Monad m]

/-- The repository of the schema file that the arguments name, else of the one that the settings
name. -/
def loadRepository (host : Host m) (settings : Settings) (schema : Option String) :
    ExceptT RunError m Repository := do
  let path ← match schema with
    | some path => pure path
    | none =>
      match ← (settings.schema.resolve host).adapt .schemaPath with
      | some path => pure path
      | none => throw .noSchema
  (Repository.load host path).adapt (.schema path)

/-- The text of a query that is given inline or by the path of its file. -/
def loadQuery (host : Host m) (query : String) : ExceptT RunError m String := do
  if isInline query then return query
  match ← host.entry query with
  | .text content => return content
  | .missing | .unreadable => throw (.queryFile query)

/-- The compile context of a run; without one it is null. -/
def readContext : Option String → Except RunError Json
  | none => .ok .null
  | some text =>
    match Json.parse? text with
    | some json => .ok json.canonical
    | none => .error .context

/-- The output of a compile. -/
def runCompile (host : Host m) (now : Calendar.DateTime) (settings : Settings)
    (arguments : CompileArguments) : ExceptT RunError m String := do
  let repository ← loadRepository host settings arguments.schema
  let context ← readContext arguments.context
  let text ← loadQuery host arguments.query
  let some query := Query.parse? text | throw .request
  let scope : CompileScope :=
    ⟨repository, arguments.dialect.getD settings.compiler.dialect, context, now⟩
  let compiled ← (scope.compile (arguments.pretty || settings.compiler.pretty) query).mapError
    RunError.compile
  return arguments.output.render compiled

/-- The line on a valid schema. -/
def validText (repository : Repository) : String :=
  "✓ Schema is valid (" ++ Nat.repr repository.models.length ++ " models, " ++
    Nat.repr repository.joins.length ++ " joins)\n"

/-- The output of a command. -/
def Command.run (host : Host m) (now : Calendar.DateTime) (command : Command) :
    ExceptT RunError m String := do
  let settings ← (Settings.find host).adapt .settings
  match command with
  | .compile arguments => runCompile host now settings arguments
  | .members schema => return lines (← loadRepository host settings schema).memberPaths
  | .validate schema => return validText (← loadRepository host settings schema)

/-- The outcome of a run with the given arguments at the given time. -/
def run (host : Host m) (now : Calendar.DateTime) (arguments : List String) : m Outcome := do
  match readArguments arguments with
  | .error e => return .refused e
  | .ok .version => return .printed versionText
  | .ok (.help topic full) => return .printed (helpText topic full)
  | .ok (.run command) =>
    match ← (command.run host now).run with
    | .ok output => return .printed output
    | .error e => return .failed e

end

end MetricLayer.CommandLine
