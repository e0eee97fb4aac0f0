import MetricLayer.Host
import MetricLayer.Repository.Basic
import MetricLayer.Schema.File
import MetricLayer.Toml.Document

/-!
# Repositories from files

The repository that a schema file declares.
-/

namespace MetricLayer

/-- Why a schema file gives no repository. -/
inductive SchemaFileError
  | notFound (path : String)
  | unreadable
  /-- The text is no schema file. -/
  | malformed
  | entry (error : EntryError)
  | invalid (error : Error)
deriving DecidableEq, Repr

/-- The words for a schema file without a repository. -/
def SchemaFileError.message : SchemaFileError → String
  | .notFound path => "File not found: " ++ path
  | .unreadable => "IO error: not a readable text file"
  | .malformed => "Failed to parse schema: not a schema file"
  | .entry error => error.message
  | .invalid error => error.message

namespace Repository

/-- The repository that the text of a schema file declares. -/
def parse (text : String) : Except SchemaFileError Repository := do
  let some file := Toml.parse? text >>= SchemaFile.decode? | throw .malformed
  let (models, joins) ← file.declarations.mapError .entry
  (build models joins).mapError .invalid

/-- The repository that the schema file at a path declares. -/
def load {m : Type → Type} [Monad m] (host : Host m) (path : String) :
    ExceptT SchemaFileError m Repository := do
  match ← host.entry path with
  | .missing => throw (.notFound path)
  | .unreadable => throw .unreadable
  | .text content => parse content

end Repository

end MetricLayer
