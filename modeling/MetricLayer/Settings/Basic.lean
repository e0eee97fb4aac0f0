import MetricLayer.Host
import MetricLayer.Settings.Variables
import MetricLayer.Sql.Dialect
import MetricLayer.Toml.Document

/-!
# Settings

Defaults for the command line, read from a settings file. Unknown keys of the file are ignored.
-/

namespace MetricLayer

/-- Defaults for a compile. -/
structure CompilerSettings where
  /-- The dialect to compile to. -/
  dialect : Sql.Dialect := .ansi
  /-- Whether the SQL is laid out over lines. -/
  pretty : Bool := false
deriving DecidableEq, Repr

/-- Where the schema is. -/
structure SchemaSettings where
  /-- The path of the schema file, with references to environment variables. -/
  path : Option String := none
deriving DecidableEq, Repr

/-- The settings of a run. -/
structure Settings where
  compiler : CompilerSettings := {}
  schema : SchemaSettings := {}
deriving DecidableEq, Repr

/-- Why there are no settings. -/
inductive SettingsError
  | notFound (path : String)
  | unreadable
  /-- The text is no settings file. -/
  | malformed
  | missingVariable (name : String)
deriving DecidableEq, Repr

/-- The words for missing settings. -/
def SettingsError.message : SettingsError → String
  | .notFound path => "Config file not found: " ++ path
  | .unreadable => "Failed to read config file: not a readable text file"
  | .malformed => "Failed to parse config file: not a settings file"
  | .missingVariable name => "Missing environment variable: " ++ name

/-! ## Decoding -/

/-- The compiler settings of a value. -/
def CompilerSettings.decode? (value : Toml.Value) : Option CompilerSettings := do
  let fields ← value.looseRecord? ["dialect", "pretty"]
  return {
    dialect := ← fields.orDefault? "dialect" .ansi (·.name? >>= Sql.Dialect.ofName?)
    pretty := ← fields.orDefault? "pretty" false (·.bool?) }

/-- The schema settings of a value. -/
def SchemaSettings.decode? (value : Toml.Value) : Option SchemaSettings := do
  let fields ← value.looseRecord? ["path"]
  return { path := ← fields.optional? "path" (·.text?) }

namespace Settings

/-- The settings of a value. -/
def decode? (value : Toml.Value) : Option Settings := do
  let fields ← value.looseRecord? ["compiler", "schema"]
  return {
    compiler := ← fields.orDefault? "compiler" {} CompilerSettings.decode?
    schema := ← fields.orDefault? "schema" {} SchemaSettings.decode? }

/-- The settings that the text of a settings file holds. -/
def parse (text : String) : Except SettingsError Settings :=
  match Toml.parse? text >>= decode? with
  | some settings => .ok settings
  | none => .error .malformed

/-! ## Locations -/

/-- The environment variable that names a settings file. -/
def pathVariable : String := "SEMLAYER_CONFIG"

/-- The settings file of a working directory. -/
def localPath : String := "semlayer.toml"

/-- The settings file in a directory of configuration files. -/
def userPath (directory : String) : String :=
  directory ++ "/semlayer/config.toml"

variable {m : Type → Type} [Monad m]

/-- The settings in the file at a path. -/
def load (host : Host m) (path : String) : ExceptT SettingsError m Settings := do
  match ← host.entry path with
  | .missing => throw (.notFound path)
  | .unreadable => throw .unreadable
  | .text content => parse content

/-- The settings in the first of the given files that exists, or the defaults. -/
def loadFirst (host : Host m) : List String → ExceptT SettingsError m Settings
  | [] => return {}
  | path :: others => do
    match ← host.entry path with
    | .missing => loadFirst host others
    | _ => load host path

/-- The settings of a run: those in the file that the environment names, which must exist, else
those of the working directory, else those of the user, else the defaults. -/
def find (host : Host m) : ExceptT SettingsError m Settings := do
  match ← host.value? pathVariable with
  | some path => load host path
  | none =>
    let directory ← host.configDirectory?
    loadFirst host (localPath :: (directory.map userPath).toList)

end Settings

/-- The path of the schema file with its references to environment variables replaced. -/
def SchemaSettings.resolve {m : Type → Type} [Monad m] (settings : SchemaSettings) (host : Host m) :
    ExceptT SettingsError m (Option String) := do
  match settings.path with
  | none => return none
  | some path =>
    let values ← (Variables.references path).mapM fun name => do return (name, ← host.value? name)
    let expanded := Variables.expand (fun name => (values.lookup name).join) path
    return some (← expanded.mapError SettingsError.missingVariable)

end MetricLayer
