import MetricLayer.CommandLine.Arguments

/-!
# Help

The texts that explain the program and its commands.
-/

namespace MetricLayer.CommandLine

/-- The name and version of the program. -/
def versionText : String := "semlayer 0.1.0\n"

/-- Lines as text. -/
def lines (texts : List String) : String :=
  String.join (texts.map (· ++ "\n"))

/-- Help on the program. -/
def programHelp : String := lines [
  "semlayer - A semantic layer that compiles analytic queries to multi-dialect SQL",
  "",
  "Usage: semlayer <COMMAND>",
  "",
  "Commands:",
  "  compile   Compile a query request to SQL",
  "  members   List addressable member paths",
  "  validate  Validate a schema without compiling anything",
  "  help      Print this message or the help of the given subcommand(s)",
  "",
  "Options:",
  "  -h, --help     Print help",
  "  -V, --version  Print version"]

/-- Help on a command that has a schema and no other option. -/
def schemaCommandHelp (command about : String) : String := lines [
  about,
  "",
  "Usage: semlayer " ++ command ++ " [OPTIONS]",
  "",
  "Options:",
  "  -s, --schema <SCHEMA>  Path to the schema TOML",
  "  -h, --help             Print help"]

/-- Brief help on compiling. -/
def compileHelp : String := lines [
  "Compile a query request to SQL",
  "",
  "Usage: semlayer compile [OPTIONS] --query <QUERY>",
  "",
  "Options:",
  "  -s, --schema <SCHEMA>    Path to the schema TOML",
  "  -q, --query <QUERY>      Query request: inline JSON or a path to a JSON file",
  "  -d, --dialect <DIALECT>  SQL dialect to generate [possible values: ansi, postgres, duckdb, " ++
    "databricks]",
  "  -c, --context <CONTEXT>  Compile context as inline JSON",
  "      --pretty             Multi-line SQL",
  "  -o, --output <OUTPUT>    Output format [default: sql] [possible values: sql, json]",
  "  -h, --help               Print help (see more with '--help')"]

/-- Full help on compiling. -/
def compileFullHelp : String := lines [
  "Compile a query request to SQL",
  "",
  "Usage: semlayer compile [OPTIONS] --query <QUERY>",
  "",
  "Options:",
  "  -s, --schema <SCHEMA>",
  "          Path to the schema TOML",
  "",
  "  -q, --query <QUERY>",
  "          Query request: inline JSON or a path to a JSON file",
  "",
  "  -d, --dialect <DIALECT>",
  "          SQL dialect to generate",
  "          ",
  "          [possible values: ansi, postgres, duckdb, databricks]",
  "",
  "  -c, --context <CONTEXT>",
  "          Compile context as inline JSON",
  "",
  "      --pretty",
  "          Multi-line SQL",
  "",
  "  -o, --output <OUTPUT>",
  "          Output format",
  "",
  "          Possible values:",
  "          - sql:  SQL, then bindings as a comment",
  "          - json: `\x7b\"sql\": ..., \"bindings\": [...]\x7d`",
  "          ",
  "          [default: sql]",
  "",
  "  -h, --help",
  "          Print help (see a summary with '-h')"]

/-- Help on the request for help. -/
def helpHelp : String := lines [
  "Print this message or the help of the given subcommand(s)",
  "",
  "Usage: semlayer help [COMMAND]...",
  "",
  "Arguments:",
  "  [COMMAND]...  Print help for the subcommand(s)"]

/-- Help on a topic. -/
def helpText : Topic → (full : Bool) → String
  | .program, _ => programHelp
  | .command .compile, false => compileHelp
  | .command .compile, true => compileFullHelp
  | .command .members, _ => schemaCommandHelp "members" "List addressable member paths"
  | .command .validate, _ =>
    schemaCommandHelp "validate" "Validate a schema without compiling anything"
  | .help, _ => helpHelp

end MetricLayer.CommandLine
