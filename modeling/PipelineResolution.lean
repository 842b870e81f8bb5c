import PipelineResolution.Catalog
import PipelineResolution.Diagnostic.Json
import PipelineResolution.Json.Read
import PipelineResolution.Step.Assignment
import PipelineResolution.Step.Run
import PipelineResolution.Proofs.Expression.Agreement
import PipelineResolution.Proofs.Execution.Environment
import PipelineResolution.Proofs.Expression.Bound
import PipelineResolution.Proofs.Expression.Completeness
import PipelineResolution.Proofs.Graph.Depths
import PipelineResolution.Proofs.Graph.Search
import PipelineResolution.Proofs.Pipeline.Distinct
import PipelineResolution.Proofs.Pipeline.Plan
import PipelineResolution.Proofs.Resolution.Deferral
import PipelineResolution.Proofs.Step.Gathering
import PipelineResolution.Proofs.Step.Sufficiency
import PipelineResolution.Proofs.Expression.DirectiveFree
import PipelineResolution.Proofs.Expression.Extension
import PipelineResolution.Proofs.Expression.Folding
import PipelineResolution.Proofs.Resolution.Body
import PipelineResolution.Proofs.Resolution.Early
import PipelineResolution.Proofs.Resolution.Edges
import PipelineResolution.Proofs.Resolution.Recognition
import PipelineResolution.Proofs.Step.Edges
import PipelineResolution.Proofs.Pipeline.Schedulable
import PipelineResolution.Proofs.Catalog
import PipelineResolution.Proofs.Step.Addressing
import PipelineResolution.Proofs.Step.Aside
import PipelineResolution.Proofs.Step.Backoff
import PipelineResolution.Proofs.Step.Checks
import PipelineResolution.Proofs.Step.LoopGuard
import PipelineResolution.Proofs.Step.Moves
import PipelineResolution.Proofs.Step.Replay
import PipelineResolution.Proofs.Step.Reresolution
import PipelineResolution.Proofs.Step.Writes
import PipelineResolution.Proofs.Step.Validation
import PipelineResolution.Proofs.Step.Exact
import PipelineResolution.Proofs.Step.Contract
import PipelineResolution.Proofs.Step.Listing
import PipelineResolution.Proofs.Trigger.Settled
import PipelineResolution.Proofs.Catalog.Account
import PipelineResolution.Proofs.Catalog.Independence
import PipelineResolution.Proofs.Catalog.Definitions
import PipelineResolution.Proofs.Document.Keys
import PipelineResolution.Proofs.Document.Entries
import PipelineResolution.Proofs.Document.Labels
import PipelineResolution.Proofs.Catalog.Labels
import PipelineResolution.Proofs.Pipeline.Binding
import PipelineResolution.Proofs.Step.Order
import PipelineResolution.Proofs.Step.Options
import PipelineResolution.Proofs.Step.RoundTrip
import PipelineResolution.Proofs.Step.Ignored
import PipelineResolution.Proofs.AttributeType
import PipelineResolution.Proofs.Step.Assignment
import PipelineResolution.Proofs.Duration
import PipelineResolution.Proofs.Execution.Recording
import PipelineResolution.Proofs.Resolution.Batch
import PipelineResolution.Proofs.Step.Waiting
import PipelineResolution.Proofs.AttributeType.Integer
import PipelineResolution.Proofs.Expression.Crossing
import PipelineResolution.Proofs.Json
import PipelineResolution.Proofs.Number.Shortest
import PipelineResolution.Proofs.Step.Integers
import PipelineResolution.Proofs.Expression.Interpolation
import PipelineResolution.Proofs.Step.DependencyOrder
