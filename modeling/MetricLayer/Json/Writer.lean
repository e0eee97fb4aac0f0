import MetricLayer.Json.Basic
import MetricLayer.Decimal.Layout

/-!
# JSON text

Values as text: compactly, without any space, or over lines indented by two spaces.
-/

namespace MetricLayer.Json

/-- The text of a number. -/
def Number.text : Number → String
  | .int value => toString value
  | .float bits => Decimal.textOfBits .standard bits

/-- A control character as four hexadecimal digits. -/
def unicodeEscape (c : Char) : String :=
  let hex := Nat.toDigits 16 c.toNat
  "\\u" ++ String.ofList (List.replicate (4 - hex.length) '0' ++ hex)

/-- A character inside a string. Only quotes, backslashes and control characters are escaped. -/
def escape (c : Char) : String :=
  if c = '"' then "\\\""
  else if c = '\\' then "\\\\"
  else if c = '\n' then "\\n"
  else if c = '\r' then "\\r"
  else if c = '\t' then "\\t"
  else if c.toNat = 0x08 then "\\b"
  else if c.toNat = 0x0C then "\\f"
  else if c.toNat < 0x20 then unicodeEscape c
  else c.toString

/-- A string in quotes. -/
def quoted (s : String) : String :=
  "\"" ++ String.join (s.toList.map escape) ++ "\""

mutual

/-- The value as text without spaces. -/
def compact : Json → String
  | .null => "null"
  | .bool b => if b then "true" else "false"
  | .number n => n.text
  | .string s => quoted s
  | .array items => "[" ++ String.intercalate "," (compactItems items) ++ "]"
  | .object fields => "\x7b" ++ String.intercalate "," (compactFields fields) ++ "\x7d"

/-- The texts of the items of an array. -/
def compactItems : List Json → List String
  | [] => []
  | item :: rest => compact item :: compactItems rest

/-- The texts of the fields of an object. -/
def compactFields : List (String × Json) → List String
  | [] => []
  | (key, value) :: rest => (quoted key ++ ":" ++ compact value) :: compactFields rest

end

/-- A line break followed by the indentation of the given depth. -/
def lineBreak (depth : Nat) : String :=
  "\n" ++ String.join (List.replicate depth "  ")

/-- Entries on lines of their own between two brackets; no line is broken between the brackets of
an empty container. -/
def bracketed (opening closing : String) (depth : Nat) (entries : List String) : String :=
  if entries.isEmpty then opening ++ closing
  else
    let inner := lineBreak (depth + 1)
    opening ++ inner ++ String.intercalate ("," ++ inner) entries ++ lineBreak depth ++ closing

mutual

/-- The value over lines, nested at the given depth. -/
def prettyAt (depth : Nat) : Json → String
  | .array items => bracketed "[" "]" depth (prettyItems (depth + 1) items)
  | .object fields => bracketed "\x7b" "\x7d" depth (prettyFields (depth + 1) fields)
  | .null => compact .null
  | .bool b => compact (.bool b)
  | .number n => compact (.number n)
  | .string s => compact (.string s)

/-- The texts of the items of an array at the given depth. -/
def prettyItems (depth : Nat) : List Json → List String
  | [] => []
  | item :: rest => prettyAt depth item :: prettyItems depth rest

/-- The texts of the fields of an object at the given depth. -/
def prettyFields (depth : Nat) : List (String × Json) → List String
  | [] => []
  | (key, value) :: rest => (quoted key ++ ": " ++ prettyAt depth value) :: prettyFields depth rest

end

/-- The value over lines, each level indented by two spaces. -/
def pretty (json : Json) : String :=
  prettyAt 0 json

end MetricLayer.Json
