import SchemaQuery.Binary64.Shortest
import SchemaQuery.CallError
import SchemaQuery.Clause
import SchemaQuery.Condition
import SchemaQuery.Config.Text
import SchemaQuery.Context
import SchemaQuery.Event
import SchemaQuery.Filter.Block
import SchemaQuery.Json.Document
import SchemaQuery.Keyed
import SchemaQuery.Operator
import SchemaQuery.Query.Run
import SchemaQuery.RouteLog
import SchemaQuery.Schema.Resolve
import SchemaQuery.Schema.Text
import SchemaQuery.Sink
import SchemaQuery.Value.Literal
import SchemaQuery.Version
import SchemaQuery.Proofs.Path.Segments
import SchemaQuery.Proofs.Resolve.Chain
import SchemaQuery.Proofs.Except
import SchemaQuery.Proofs.Resolve.Walk
import SchemaQuery.Proofs.Resolve.Resolution
import SchemaQuery.Proofs.Resolve.Containers
import SchemaQuery.Proofs.Resolve.Below
import SchemaQuery.Proofs.Validate.WellFormed
import SchemaQuery.Proofs.Filter.Comparison
import SchemaQuery.Proofs.Filter.Denotation
import SchemaQuery.Proofs.Filter.Run
import SchemaQuery.Proofs.Keyed
import SchemaQuery.Proofs.Query.Checks
import SchemaQuery.Proofs.Query.Soundness
import SchemaQuery.Proofs.Filter.Elements
import SchemaQuery.Proofs.Validate.Coverage
import SchemaQuery.Proofs.Validate.Addresses
import SchemaQuery.Proofs.Query.Erasure
import SchemaQuery.Proofs.Query.Families
import SchemaQuery.Proofs.Filter.Hash
import SchemaQuery.Proofs.Query.Relaxation
import SchemaQuery.Proofs.Json.Alike
import SchemaQuery.Proofs.Schema.Normal
import SchemaQuery.Proofs.Query.Members
import SchemaQuery.Proofs.Query.Literals
import SchemaQuery.Proofs.Value.Conversion
import SchemaQuery.Proofs.Query.Wire
import SchemaQuery.Proofs.Schema.RoundTrip
import SchemaQuery.Proofs.Query.Reports
import SchemaQuery.Proofs.Recorder.Scopes
import SchemaQuery.Proofs.Query.Eager
import SchemaQuery.Proofs.Filter.Origin
import SchemaQuery.Proofs.Query.Acceptance
import SchemaQuery.Proofs.Query.Identification
import SchemaQuery.Proofs.Filter.Refusal
import SchemaQuery.Proofs.Resolve.Malformed
import SchemaQuery.Proofs.Resolve.Shortest
import SchemaQuery.Proofs.Resolve.Children
import SchemaQuery.Proofs.RouteLog
import SchemaQuery.Proofs.Validate.Routes
import SchemaQuery.Proofs.Validate.Findings
import SchemaQuery.Proofs.Validate.Skipped
import SchemaQuery.Proofs.Validate.Repairs
import SchemaQuery.Proofs.Filter.Arguments
import SchemaQuery.Proofs.Text.Bytes
import SchemaQuery.Proofs.RouteLog.History
import SchemaQuery.Proofs.Binary64.Equality
import SchemaQuery.Proofs.Value.Equality
import SchemaQuery.Proofs.Value.Falsy
import SchemaQuery.Proofs.Filter.Exchange
