import MetricLayer.Json.Basic
import MetricLayer.Text.Split

/-!
# JSON pointers

A pointer names a place inside a value: `/tenant/ids/0` is item `0` of field `ids` of field
`tenant`. Inside a step `~1` stands for `/` and `~0` for `~`.
-/

namespace MetricLayer.Json

/-- Undo `~1`, read from left to right. -/
def unescapeSlash : List Char → List Char
  | [] => []
  | '~' :: '1' :: rest => '/' :: unescapeSlash rest
  | c :: rest => c :: unescapeSlash rest

/-- Undo `~0`, read from left to right. -/
def unescapeTilde : List Char → List Char
  | [] => []
  | '~' :: '0' :: rest => '~' :: unescapeTilde rest
  | c :: rest => c :: unescapeTilde rest

/-- A step as an array index: decimal digits without a superfluous leading zero. -/
def arrayIndex? (step : List Char) : Option Nat :=
  if step.isEmpty || !step.all Char.isDigit || (step.head? = some '0' && step.length ≠ 1) then none
  else
    let n := step.foldl (fun n c => n * 10 + (c.toNat - '0'.toNat)) 0
    if n < UInt64.size then some n else none

/-- The value one step inside another. -/
def step? (value : Json) (step : List Char) : Option Json :=
  match value with
  | .object fields => field? (String.ofList step) fields
  | .array items => arrayIndex? step >>= fun i => items[i]?
  | _ => none

/-- The value at a pointer. The empty pointer names the whole value; any other starts with a
slash. -/
def pointer? (value : Json) (pointer : String) : Option Json :=
  match pointer.toList with
  | [] => some value
  | '/' :: rest =>
    (Text.splitAt '/' rest).foldlM (fun v s => step? v (unescapeTilde (unescapeSlash s))) value
  | _ => none

end MetricLayer.Json
