/-!
# Surroundings

What the program asks of the machine it runs on: the texts behind paths and the values of
environment variables. The answers come in a monad, so that the same program runs on a real machine
and on a described one.
-/

namespace MetricLayer

/-- What a path leads to. -/
inductive FileEntry
  | missing
  /-- Something that cannot be read as text, such as a directory. -/
  | unreadable
  | text (content : String)
deriving DecidableEq, Repr

/-- The surroundings of a run. -/
structure Host (m : Type → Type) where
  /-- What a path leads to. -/
  entry : String → m FileEntry
  /-- The value of an environment variable. -/
  value? : String → m (Option String)
  /-- The directory of the user's configuration files. -/
  configDirectory? : m (Option String)

end MetricLayer
