import MetricLayer.Json.Writer

/-!
# Display formats

How the values of a member are shown to a reader of query results.
-/

namespace MetricLayer

/-- The display format of a member's values. -/
inductive Format
  /-- A percent sign after the value. -/
  | percentage
  /-- A dollar sign before the value. -/
  | currency
  /-- A text chosen by the declarer of the schema. -/
  | custom (render : Json → String)

namespace Format

/-- The name of a format. -/
def name : Format → String
  | .percentage => "percentage"
  | .currency => "currency"
  | .custom _ => "custom"

/-- The format with a name that a schema file may use. -/
def ofName? (name : String) : Option Format :=
  if name = "percentage" then some .percentage
  else if name = "currency" then some .currency
  else none

/-- The text of a value inside a format: a string as it is, any other value as compact JSON. -/
def plainText : Json → String
  | .string s => s
  | value => value.compact

/-- The text of a value. -/
def apply (format : Format) (value : Json) : String :=
  match format with
  | .percentage => plainText value ++ "%"
  | .currency => "$" ++ plainText value
  | .custom render => render value

end Format

end MetricLayer
