import MetricLayer.Schema.Join
import MetricLayer.Schema.Model
import MetricLayer.Schema.TemplateText
import MetricLayer.Toml.Value

/-!
# Schema files

A schema file declares models and joins. Reading one has two steps. The whole file is first decoded
into entries, where no unknown field is allowed and every field has its type. Then the entries
become declarations, one after the other, and the first that cannot is reported.
-/

namespace MetricLayer

/-- A dimension as written in a schema file. -/
structure DimensionEntry where
  name : String
  type : ValueType
  primaryKey : Bool
  /-- The name of a format. -/
  format : Option String
  /-- A template text. -/
  sql : Option String
deriving Repr

/-- A metric as written in a schema file. -/
structure MetricEntry where
  name : String
  /-- A template text. -/
  sql : String
  /-- The name of a format. -/
  format : Option String
deriving Repr

/-- A model as written in a schema file. -/
structure ModelEntry where
  name : String
  table : Option String
  subquery : Option String
  dimensions : List DimensionEntry
  metrics : List MetricEntry
deriving Repr

/-- A join as written in a schema file. -/
structure JoinEntry where
  origin : String
  target : String
  cardinality : Cardinality
  priority : Priority
  kind : Option DeclaredKind
  /-- A template text. -/
  condition : String
deriving Repr

/-- A schema file. -/
structure SchemaFile where
  models : List ModelEntry
  joins : List JoinEntry
deriving Repr

/-! ## Decoding -/

/-- A name that stands for a value of a closed type. -/
def Toml.Value.choice? {α : Type} (ofName? : String → Option α) (value : Toml.Value) : Option α :=
  value.name? >>= ofName?

/-- The dimension entry of a value. -/
def DimensionEntry.decode? (value : Toml.Value) : Option DimensionEntry := do
  let fields ← value.strictRecord? ["name", "type", "primary_key", "format", "sql"] 5
  return {
    name := ← fields.required? "name" (·.text?)
    type := ← fields.orDefault? "type" .string (·.choice? ValueType.ofName?)
    primaryKey := ← fields.orDefault? "primary_key" false (·.bool?)
    format := ← fields.optional? "format" (·.text?)
    sql := ← fields.optional? "sql" (·.text?) }

/-- The metric entry of a value. -/
def MetricEntry.decode? (value : Toml.Value) : Option MetricEntry := do
  let fields ← value.strictRecord? ["name", "sql", "format"] 3
  return {
    name := ← fields.required? "name" (·.text?)
    sql := ← fields.required? "sql" (·.text?)
    format := ← fields.optional? "format" (·.text?) }

/-- The model entry of a value. -/
def ModelEntry.decode? (value : Toml.Value) : Option ModelEntry := do
  let fields ← value.strictRecord? ["name", "table", "subquery", "dimensions", "metrics"] 3
  return {
    name := ← fields.required? "name" (·.text?)
    table := ← fields.optional? "table" (·.text?)
    subquery := ← fields.optional? "subquery" (·.text?)
    dimensions := ← fields.orDefault? "dimensions" [] (·.list? DimensionEntry.decode?)
    metrics := ← fields.orDefault? "metrics" [] (·.list? MetricEntry.decode?) }

/-- The join entry of a value. -/
def JoinEntry.decode? (value : Toml.Value) : Option JoinEntry := do
  let fields ← value.strictRecord? ["from", "to", "cardinality", "priority", "kind", "condition"] 6
  return {
    origin := ← fields.required? "from" (·.text?)
    target := ← fields.required? "to" (·.text?)
    cardinality := ← fields.required? "cardinality" (·.choice? Cardinality.ofName?)
    priority := ← fields.orDefault? "priority" .normal (·.choice? Priority.ofName?)
    kind := ← fields.optional? "kind" (·.choice? DeclaredKind.ofName?)
    condition := ← fields.required? "condition" (·.text?) }

/-- The schema file of a value. -/
def SchemaFile.decode? (value : Toml.Value) : Option SchemaFile := do
  let fields ← value.strictRecord? ["models", "joins"] 0
  return {
    models := ← fields.orDefault? "models" [] (·.list? ModelEntry.decode?)
    joins := ← fields.orDefault? "joins" [] (·.list? JoinEntry.decode?) }

/-! ## Declarations -/

/-- Why an entry is no declaration. -/
inductive EntryError
  /-- A model reads from both a table and a subquery. -/
  | twoSources (model : String)
  | unknownDimensionFormat (dimension format : String)
  | unknownMetricFormat (metric format : String)
  | template (text : String) (fault : TemplateFault)
deriving DecidableEq, Repr

namespace EntryError

/-- The words for a format that does not exist. -/
def unknownFormat (format : String) : String :=
  s!"unknown format '{format}' (expected percentage or currency)"

/-- The words for an entry that is no declaration. -/
def message : EntryError → String
  | .twoSources model => s!"Invalid model '{model}': declare either 'table' or 'subquery', not both"
  | .unknownDimensionFormat dimension format =>
    s!"Invalid dimension '{dimension}': " ++ unknownFormat format
  | .unknownMetricFormat metric format =>
    s!"Invalid metric '{metric}': " ++ unknownFormat format
  | .template text fault => s!"Invalid template '{text}': " ++ fault.message

end EntryError

/-- The pieces of a template text in an entry. -/
def entryTemplate (use : TemplateUse) (text : String) : Except EntryError (List TextPiece) :=
  (TemplateText.parse use text).mapError (.template text)

/-- The format with the given name, or the given error. -/
def entryFormat (error : String → EntryError) : Option String → Except EntryError (Option Format)
  | none => .ok none
  | some name =>
    match Format.ofName? name with
    | some format => .ok (some format)
    | none => .error (error name)

/-- The definition of a dimension with an optional template text. -/
def entryDefinition : Option String → Except EntryError (Option (MemberScope → Template))
  | none => .ok none
  | some text => do return some (TemplateText.memberTemplate (← entryTemplate .member text))

/-- The dimension that an entry declares. Its format is read before its template. -/
def DimensionEntry.dimension (e : DimensionEntry) : Except EntryError Dimension := do
  let format ← entryFormat (.unknownDimensionFormat e.name) e.format
  let definition ← entryDefinition e.sql
  return ⟨e.name, e.type, e.primaryKey, format, definition⟩

/-- The metric that an entry declares. Its template is read before its format. -/
def MetricEntry.metric (e : MetricEntry) : Except EntryError Metric := do
  let pieces ← entryTemplate .member e.sql
  let format ← entryFormat (.unknownMetricFormat e.name) e.format
  return ⟨e.name, format, TemplateText.memberTemplate pieces⟩

/-- What the model of an entry reads from; without a declaration, the table of its own name. -/
def ModelEntry.source (e : ModelEntry) : Except EntryError ModelSource :=
  match e.table, e.subquery with
  | some _, some _ => .error (.twoSources e.name)
  | some table, none => .ok (.table table)
  | none, some sql => .ok (.subquery sql)
  | none, none => .ok (.table e.name)

/-- The model that an entry declares. -/
def ModelEntry.model (e : ModelEntry) : Except EntryError Model := do
  let source ← e.source
  let dimensions ← e.dimensions.mapM (·.dimension)
  let metrics ← e.metrics.mapM (·.metric)
  return ⟨e.name, source, dimensions, metrics⟩

/-- The join that an entry declares. -/
def JoinEntry.join (e : JoinEntry) : Except EntryError Join := do
  let pieces ← entryTemplate .join e.condition
  return ⟨e.origin, e.target, e.cardinality, e.priority, e.kind, TemplateText.joinTemplate pieces⟩

/-- The declarations of a schema file, models before joins. -/
def SchemaFile.declarations (file : SchemaFile) : Except EntryError (List Model × List Join) := do
  let models ← file.models.mapM (·.model)
  let joins ← file.joins.mapM (·.join)
  return (models, joins)

end MetricLayer
