import MetricLayer.Json.Reader
import MetricLayer.Query.Basic

/-!
# Queries as JSON

A query is an object whose fields are all optional. Wherever an object is expected, an array of
its fields in declaration order may stand instead, and wherever a name is expected, an object whose
only field has that name and the value null. No field may occur twice, and no other field at all.
`encode` writes a query in the form in which `decode?` reads it back.
-/

namespace MetricLayer

open Json (field?)

/-- A string. -/
def Json.text? : Json → Option String
  | .string s => some s
  | _ => none

/-- An integer that is not negative. -/
def Json.nat? : Json → Option Nat
  | .number (.int n) => if 0 ≤ n then some n.toNat else none
  | _ => none

/-- A name, also in the form of an object with that field and the value null. -/
def Json.name? : Json → Option String
  | .string s => some s
  | .object [(name, .null)] => some name
  | _ => none

/-- An array of which every item is read by the given reader. -/
def Json.list? {α : Type} (item : Json → Option α) : Json → Option (List α)
  | .array items => items.mapM item
  | _ => none

/-- An optional value, absent or null where it is not given. -/
def Json.optional {α : Type} (read : Json → Option α) : Option Json → Option (Option α)
  | none => some none
  | some .null => some none
  | some value => (read value).map some

/-- The fields of an object that has no field twice and no field outside of `names`, or the items of
an array under these names in order. -/
def Json.record? (names : List String) : Json → Option (List (String × Json))
  | .object fields =>
    let keys := fields.map (·.1)
    if keys.Nodup ∧ ∀ k ∈ keys, k ∈ names then some fields else none
  | .array items => if items.length ≤ names.length then some (names.zip items) else none
  | _ => none

namespace Filter

/-- The connective of a group. -/
def groupConnective? (fields : List (String × Json)) : Option Connective := do
  Connective.ofName? (← (← field? "operator" fields).name?)

/-- A leaf. Its value is kept in canonical form; null means that there is none. -/
def decodeLeaf? (json : Json) : Option FilterLeaf := do
  let fields ← json.record? ["operator", "member", "value"]
  let operator ← Operator.ofName? (← (← field? "operator" fields).name?)
  let member ← (← field? "member" fields).text?
  let value ← Json.optional some (field? "value" fields)
  return ⟨operator, member, value.map Json.canonical⟩

mutual

/-- A filter: a group where it can be read as one, and otherwise a leaf. -/
def decode? : Json → Option Filter
  | .object fields =>
    match Json.record? ["operator", "filters"] (.object fields) with
    | some _ =>
      match groupConnective? fields, decodeChildren? fields with
      | some connective, some children => some (.group connective children)
      | _, _ => (decodeLeaf? (.object fields)).map .leaf
    | none => (decodeLeaf? (.object fields)).map .leaf
  | .array [operator, .array children] =>
    match groupConnective? [("operator", operator)], decodeAll? children with
    | some connective, some children => some (.group connective children)
    | _, _ => (decodeLeaf? (.array [operator, .array children])).map .leaf
  | json => (decodeLeaf? json).map .leaf

/-- The children of a group. -/
def decodeChildren? : List (String × Json) → Option (List Filter)
  | [] => none
  | (key, value) :: rest =>
    if key = "filters" then
      match value with
      | .array children => decodeAll? children
      | _ => none
    else decodeChildren? rest

/-- Several filters. -/
def decodeAll? : List Json → Option (List Filter)
  | [] => some []
  | json :: rest => do
    let child ← decode? json
    let others ← decodeAll? rest
    return child :: others

end

/-- A leaf as JSON; the value is left out where there is none. -/
def encodeLeaf (leaf : FilterLeaf) : Json :=
  .object ([("operator", .string leaf.operator.name), ("member", .string leaf.member)] ++
    (leaf.value.map fun v => ("value", v)).toList)

mutual

/-- A filter as JSON. -/
def encode : Filter → Json
  | .group connective children =>
    .object [("operator", .string connective.name), ("filters", .array (encodeAll children))]
  | .leaf l => encodeLeaf l

/-- Several filters as JSON. -/
def encodeAll : List Filter → List Json
  | [] => []
  | child :: rest => child.encode :: encodeAll rest

end

end Filter

/-- The name of a sort direction. -/
def Sql.SortDirection.name : Sql.SortDirection → String
  | .asc => "asc"
  | .desc => "desc"

/-- The sort direction with the given name. -/
def Sql.SortDirection.ofName? (name : String) : Option Sql.SortDirection :=
  [Sql.SortDirection.asc, .desc].find? (·.name = name)

namespace OrderEntry

/-- An entry of an ordering: a path and a direction. -/
def decode? : Json → Option OrderEntry
  | .array [path, direction] => do
    return ⟨← path.text?, ← Sql.SortDirection.ofName? (← direction.name?)⟩
  | _ => none

/-- An entry of an ordering as JSON. -/
def encode (entry : OrderEntry) : Json :=
  .array [.string entry.path, .string entry.direction.name]

end OrderEntry

namespace Query

/-- The names of the fields of a query, in declaration order. -/
def fieldNames : List String :=
  ["dimensions", "metrics", "filters", "order", "limit", "offset"]

/-- A list field, empty where it is not given. -/
def listField? {α : Type} (item : Json → Option α) (name : String)
    (fields : List (String × Json)) : Option (List α) :=
  match field? name fields with
  | none => some []
  | some json => json.list? item

/-- Read a query. -/
def decode? (json : Json) : Option Query := do
  let fields ← json.record? fieldNames
  return {
    dimensions := ← listField? Json.text? "dimensions" fields
    metrics := ← listField? Json.text? "metrics" fields
    filter := ← Json.optional Filter.decode? (field? "filters" fields)
    order := ← listField? OrderEntry.decode? "order" fields
    limit := ← Json.optional Json.nat? (field? "limit" fields)
    offset := ← Json.optional Json.nat? (field? "offset" fields) }

/-- Read a query from JSON text. -/
def parse? (text : String) : Option Query :=
  Json.parse? text >>= decode?

/-- Write a query. Lists are always written, other fields only where they are set. -/
def encode (q : Query) : Json :=
  let optional (name : String) (value : Option Json) : List (String × Json) :=
    (value.map fun v => (name, v)).toList
  .object ([("dimensions", .array (q.dimensions.map .string)),
      ("metrics", .array (q.metrics.map .string))] ++
    optional "filters" (q.filter.map Filter.encode) ++
    [("order", .array (q.order.map OrderEntry.encode))] ++
    optional "limit" (q.limit.map Json.ofNat) ++ optional "offset" (q.offset.map Json.ofNat))

end Query

end MetricLayer
