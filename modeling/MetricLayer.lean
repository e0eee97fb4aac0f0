import MetricLayer.Calendar.Date
import MetricLayer.Calendar.DateRange
import MetricLayer.Calendar.DateTime
import MetricLayer.Calendar.Phrase
import MetricLayer.Calendar.Reader
import MetricLayer.CommandLine.Arguments
import MetricLayer.CommandLine.Help
import MetricLayer.CommandLine.Run
import MetricLayer.Compile.Assembly
import MetricLayer.Compile.Basic
import MetricLayer.Decimal.Layout
import MetricLayer.Decimal.Shortest
import MetricLayer.Distinct
import MetricLayer.Filter.Basic
import MetricLayer.Filter.Payload
import MetricLayer.Filter.Predicate
import MetricLayer.Host
import MetricLayer.Introspection
import MetricLayer.JoinGraph.Basic
import MetricLayer.JoinGraph.JoinTree
import MetricLayer.JoinGraph.ShortestPath
import MetricLayer.Json.Basic
import MetricLayer.Json.Pointer
import MetricLayer.Json.Reader
import MetricLayer.Json.Writer
import MetricLayer.Main
import MetricLayer.Member.Evaluate
import MetricLayer.Member.Level
import MetricLayer.Member.Scope
import MetricLayer.Member.Session
import MetricLayer.Query.Basic
import MetricLayer.Query.Json
import MetricLayer.Reachable
import MetricLayer.Repository.Basic
import MetricLayer.Repository.File
import MetricLayer.Repository.Member
import MetricLayer.Schema.Aggregate
import MetricLayer.Schema.Error
import MetricLayer.Schema.File
import MetricLayer.Schema.Format
import MetricLayer.Schema.Granularity
import MetricLayer.Schema.Join
import MetricLayer.Schema.Model
import MetricLayer.Schema.Template
import MetricLayer.Schema.TemplateText
import MetricLayer.Schema.ValueType
import MetricLayer.Segment.Basic
import MetricLayer.Segment.Expand
import MetricLayer.Segment.Orientation
import MetricLayer.Settings.Basic
import MetricLayer.Settings.Variables
import MetricLayer.Sql.Dialect
import MetricLayer.Sql.Fragment
import MetricLayer.Sql.Marker
import MetricLayer.Sql.Statement
import MetricLayer.Sql.Token
import MetricLayer.Text.Blank
import MetricLayer.Text.Range
import MetricLayer.Text.Split
import MetricLayer.Text.Word
import MetricLayer.Toml.Document
import MetricLayer.Toml.Reader
import MetricLayer.Toml.Value
import MetricLayer.Proofs.Sql.Fragment
import MetricLayer.Proofs.Sql.Statement
import MetricLayer.Proofs.Sql.Alignment
import MetricLayer.Proofs.Member.Relation
import MetricLayer.Proofs.Filter.Relation
import MetricLayer.Proofs.Segment.Relation
import MetricLayer.Proofs.Compile.Relation
import MetricLayer.Proofs.Compile.Alignment
import MetricLayer.Proofs.Repository.Validation
import MetricLayer.Proofs.Repository.File
import MetricLayer.Proofs.Compile.Noninterference
import MetricLayer.Proofs.JoinGraph.Basic
import MetricLayer.Proofs.JoinGraph.ShortestPath
import MetricLayer.Proofs.JoinGraph.Path
import MetricLayer.Proofs.JoinGraph.Spanning
import MetricLayer.Proofs.JoinGraph.JoinTree
import MetricLayer.Proofs.Repository.JoinTree
import MetricLayer.Proofs.JoinGraph.Overlap
import MetricLayer.Proofs.JoinGraph.Acyclic
import MetricLayer.Proofs.Segment.Orientation
import MetricLayer.Proofs.Segment.Expand
import MetricLayer.Proofs.Compile.JoinClause
import MetricLayer.Proofs.Segment.FanOut
import MetricLayer.Proofs.Compile.Conditions
import MetricLayer.Proofs.Segment.PushDown
import MetricLayer.Proofs.Member.Reference
import MetricLayer.Proofs.Filter.Reference
import MetricLayer.Proofs.Compile.Columns
import MetricLayer.Proofs.Compile.Scope
import MetricLayer.Proofs.Member.Trail
import MetricLayer.Proofs.Compile.Layout
import MetricLayer.Proofs.Compile.Merge
import MetricLayer.Proofs.Member.Circle
import MetricLayer.Proofs.JoinGraph.Tour
import MetricLayer.Proofs.Repository.Weight
import MetricLayer.Proofs.Json.Canonical
import MetricLayer.Proofs.Query.Json
import MetricLayer.Proofs.Member.Consistency
import MetricLayer.Proofs.Segment.Consistency
import MetricLayer.Proofs.Filter.Payload
import MetricLayer.Proofs.Compile.Consistency
import MetricLayer.Proofs.Sql.Condition
import MetricLayer.Proofs.Filter.Truth
import MetricLayer.Proofs.Filter.Tree
import MetricLayer.Proofs.Repository.Listing
import MetricLayer.Proofs.Compile.Placeholder
import MetricLayer.Proofs.Sql.Expression
import MetricLayer.Proofs.Sql.ExpressionReader
import MetricLayer.Proofs.Filter.Expression
import MetricLayer.Proofs.Member.Splice
import MetricLayer.Proofs.Calendar.Reader
import MetricLayer.Proofs.Calendar.Phrase
import MetricLayer.Proofs.Segment.Group
import MetricLayer.Proofs.Filter.Binding
import MetricLayer.Proofs.Filter.Conjunct
import MetricLayer.Proofs.Filter.Negation
import MetricLayer.Proofs.Segment.Partition
import MetricLayer.Proofs.Calendar.Date
import MetricLayer.Proofs.Calendar.DateRange
import MetricLayer.Proofs.Calendar.Period
import MetricLayer.Proofs.Calendar.Text
import MetricLayer.Proofs.Calendar.Extent
import MetricLayer.Proofs.Calendar.Window
import MetricLayer.Proofs.Filter.Timeline
import MetricLayer.Proofs.Compile.LineBreak
import MetricLayer.Proofs.Text.Run
import MetricLayer.Proofs.Schema.TemplateText
import MetricLayer.Proofs.Repository.Graph
import MetricLayer.Proofs.Compile.Introspection
import MetricLayer.Proofs.Settings.Variables
import MetricLayer.Proofs.Result
import MetricLayer.Proofs.JoinGraph.InPlace
import MetricLayer.Proofs.JoinGraph.Walk
import MetricLayer.Proofs.Sql.Quoted
import MetricLayer.Proofs.Calendar.Overflow
