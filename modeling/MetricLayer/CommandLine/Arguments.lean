import MetricLayer.Sql.Dialect

/-!
# Arguments

The arguments of a run, read from left to right. The first names a command; the others are options
of that command, each given at most once, with its value attached to it or in the next argument. The
first argument that does not fit decides how a run is refused, and a request for help before it
still counts.
-/

namespace MetricLayer.CommandLine

/-- A command of the program. -/
inductive CommandName
  | compile
  | members
  | validate
deriving DecidableEq, Repr

namespace CommandName

/-- The word for a command. -/
def text : CommandName → String
  | .compile => "compile"
  | .members => "members"
  | .validate => "validate"

/-- The command with the given word. -/
def ofText? (text : String) : Option CommandName :=
  [compile, members, validate].find? (·.text = text)

end CommandName

/-- How compiled SQL is printed. -/
inductive OutputFormat
  /-- The SQL, then its bindings as a comment. -/
  | sql
  /-- One JSON object. -/
  | json
deriving DecidableEq, Repr

/-- The output format with the given name. -/
def OutputFormat.ofName? (name : String) : Option OutputFormat :=
  if name = "sql" then some .sql
  else if name = "json" then some .json
  else none

/-- An option of a command. -/
inductive Flag
  | schema
  | query
  | dialect
  | context
  | pretty
  | output
deriving DecidableEq, Repr

namespace Flag

/-- The long name of an option. -/
def long : Flag → String
  | .schema => "schema"
  | .query => "query"
  | .dialect => "dialect"
  | .context => "context"
  | .pretty => "pretty"
  | .output => "output"

/-- The letter of an option. -/
def letter? : Flag → Option Char
  | .schema => some 's'
  | .query => some 'q'
  | .dialect => some 'd'
  | .context => some 'c'
  | .pretty => none
  | .output => some 'o'

/-- Whether an option has a value. -/
def takesValue : Flag → Bool
  | .pretty => false
  | _ => true

/-- Whether a text is a value of an option. -/
def accepts (flag : Flag) (value : String) : Bool :=
  match flag with
  | .schema => value ≠ ""
  | .dialect => (Sql.Dialect.ofName? value).isSome
  | .output => (OutputFormat.ofName? value).isSome
  | .query | .context | .pretty => true

/-- An option as it is shown to the user. -/
def text (flag : Flag) : String :=
  if flag.takesValue then "--" ++ flag.long ++ " <" ++ flag.long.toUpper ++ ">"
  else "--" ++ flag.long

end Flag

/-- The options of a command. -/
def CommandName.flags : CommandName → List Flag
  | .compile => [.schema, .query, .dialect, .context, .pretty, .output]
  | .members | .validate => [.schema]

/-- Why the arguments ask for nothing that the program does. -/
inductive UsageError
  | missingCommand
  | unknownCommand (text : String)
  | unexpected (text : String)
  | missingValue (flag : Flag)
  | invalidValue (flag : Flag) (value : String)
  | repeated (flag : Flag)
  | missingFlag (flag : Flag)
deriving DecidableEq, Repr

/-- The words for unusable arguments. -/
def UsageError.message : UsageError → String
  | .missingCommand => "error: a subcommand is required but one was not provided"
  | .unknownCommand text => s!"error: unrecognized subcommand '{text}'"
  | .unexpected text => s!"error: unexpected argument '{text}' found"
  | .missingValue flag => s!"error: a value is required for '{flag.text}' but none was supplied"
  | .invalidValue flag value => s!"error: invalid value '{value}' for '{flag.text}'"
  | .repeated flag => s!"error: the argument '{flag.text}' cannot be used multiple times"
  | .missingFlag flag => "error: the following required arguments were not provided: " ++ flag.text

/-! ## Words -/

/-- The form of an argument. -/
inductive Word
  /-- Two hyphens, after which no option follows. -/
  | terminator
  /-- A long name, with a value attached by an equals sign. -/
  | long (name : String) (value : Option String)
  /-- A letter, and the characters attached to it. -/
  | short (letter : Char) (attached : List Char)
  | plain (text : String)
deriving DecidableEq, Repr

namespace Word

/-- The form of an argument. -/
def ofText (text : String) : Word :=
  match text.toList with
  | ['-', '-'] => .terminator
  | '-' :: '-' :: rest =>
    let name := String.ofList (rest.takeWhile (· ≠ '='))
    match rest.dropWhile (· ≠ '=') with
    | [] => .long name none
    | _ :: value => .long name (some (String.ofList value))
  | '-' :: letter :: attached => .short letter attached
  | _ => .plain text

/-- The value attached to a letter; an equals sign in front is not part of it. -/
def attachedValue : List Char → Option String
  | [] => none
  | '=' :: value => some (String.ofList value)
  | value => some (String.ofList value)

end Word

/-! ## Invocations -/

/-- Arguments of a compile. -/
structure CompileArguments where
  schema : Option String
  /-- A query as JSON, or the path of a file that holds one. -/
  query : String
  dialect : Option Sql.Dialect
  /-- The compile context as JSON. -/
  context : Option String
  pretty : Bool
  output : OutputFormat
deriving DecidableEq, Repr

/-- A command with its arguments. -/
inductive Command
  | compile (arguments : CompileArguments)
  | members (schema : Option String)
  | validate (schema : Option String)
deriving DecidableEq, Repr

/-- What help explains. -/
inductive Topic
  | program
  | command (name : CommandName)
  /-- The request for help itself. -/
  | help
deriving DecidableEq, Repr

/-- What the arguments ask for. -/
inductive Invocation
  | run (command : Command)
  /-- Help on a topic, in full or in brief. -/
  | help (topic : Topic) (full : Bool)
  | version
deriving DecidableEq, Repr

/-- The options given so far, with their values. -/
abbrev Given := List (Flag × String)

/-- Add an option to the given ones. -/
def Given.add (given : Given) (flag : Flag) (value : String) : Except UsageError Given :=
  if (given.lookup flag).isSome then .error (.repeated flag)
  else if flag.accepts value then .ok (given ++ [(flag, value)])
  else .error (.invalidValue flag value)

/-- The options of a command, or an earlier request for help. `pending` is the option that waits for
its value. -/
def readFlags (command : CommandName) :
    (pending : Option Flag) → Given → List String → Except UsageError (Given ⊕ Invocation)
  | none, given, [] => .ok (.inl given)
  | some flag, _, [] => .error (.missingValue flag)
  | some flag, given, text :: rest =>
    match Word.ofText text with
    | .plain value => do readFlags command none (← given.add flag value) rest
    | _ => .error (.missingValue flag)
  | none, given, text :: rest =>
    match Word.ofText text with
    | .plain _ => .error (.unexpected text)
    | .terminator => if rest.isEmpty then .ok (.inl given) else .error (.unexpected text)
    | .long "help" none => .ok (.inr (.help (.command command) true))
    | .short 'h' _ => .ok (.inr (.help (.command command) false))
    | .long name value =>
      match command.flags.find? (·.long = name), value with
      | none, _ => .error (.unexpected text)
      | some flag, none =>
        if flag.takesValue then readFlags command (some flag) given rest
        else do readFlags command none (← given.add flag "") rest
      | some flag, some value =>
        if flag.takesValue then do readFlags command none (← given.add flag value) rest
        else .error (.unexpected text)
    | .short letter attached =>
      match command.flags.find? (·.letter? = some letter), Word.attachedValue attached with
      | none, _ => .error (.unexpected text)
      | some flag, none => readFlags command (some flag) given rest
      | some flag, some value => do readFlags command none (← given.add flag value) rest

/-- A command with the given options. -/
def CommandName.command (name : CommandName) (given : Given) : Except UsageError Command :=
  let schema := given.lookup .schema
  match name with
  | .members => .ok (.members schema)
  | .validate => .ok (.validate schema)
  | .compile =>
    match given.lookup .query with
    | none => .error (.missingFlag .query)
    | some query => .ok (.compile {
        schema := schema
        query := query
        dialect := given.lookup .dialect >>= Sql.Dialect.ofName?
        context := given.lookup .context
        pretty := (given.lookup .pretty).isSome
        output := (given.lookup .output >>= OutputFormat.ofName?).getD .sql })

/-- What a command and the arguments after it ask for. -/
def readCommand (name : CommandName) (arguments : List String) : Except UsageError Invocation := do
  match ← readFlags name none [] arguments with
  | .inl given => return .run (← name.command given)
  | .inr invocation => return invocation

/-- What a request for help with the given topics asks for. -/
def readTopics : List String → Except UsageError Invocation
  | [] => .ok (.help .program true)
  | ["help"] => .ok (.help .help true)
  | topic :: rest =>
    match CommandName.ofText? topic, rest with
    | some name, [] => .ok (.help (.command name) true)
    | some _, other :: _ => .error (.unknownCommand other)
    | none, _ => .error (.unknownCommand topic)

/-- What the arguments of a run ask for. -/
def readArguments : List String → Except UsageError Invocation
  | [] => .error .missingCommand
  | text :: rest =>
    match Word.ofText text with
    | .terminator => .error .missingCommand
    | .long "help" none => .ok (.help .program true)
    | .short 'h' _ => .ok (.help .program false)
    | .long "version" none | .short 'V' _ => .ok .version
    | .long .. | .short .. => .error (.unexpected text)
    | .plain "help" => readTopics rest
    | .plain word =>
      match CommandName.ofText? word with
      | some name => readCommand name rest
      | none => .error (.unknownCommand word)

end MetricLayer.CommandLine
