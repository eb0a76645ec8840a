import FlowEngine.Active.Timeline
import FlowEngine.Command.Program
import FlowEngine.Main
import FlowEngine.Node.Standard
import FlowEngine.Proofs.Graph.Reach
import FlowEngine.Proofs.Graph.Cycle
import FlowEngine.Proofs.Graph.Names
import FlowEngine.Proofs.Run.Completion
import FlowEngine.Proofs.Run.Delivery
import FlowEngine.Proofs.Run.History
import FlowEngine.Proofs.Run.Joins
import FlowEngine.Proofs.Run.Planning
import FlowEngine.Proofs.Run.Tasks
import FlowEngine.Proofs.Workflow.Validity
import FlowEngine.Run.Engine
import FlowEngine.World
import FlowEngine.Proofs.Run.Records
import FlowEngine.Proofs.Expr.Grammar
import FlowEngine.Proofs.Expr.Parsing
import FlowEngine.Proofs.Expr.Scanning
import FlowEngine.Proofs.Template.Blocks
import FlowEngine.Proofs.Expr.Errors
import FlowEngine.Proofs.Template.Rendering
import FlowEngine.Proofs.Decimal.Normal
import FlowEngine.Proofs.Decimal.Numeral
import FlowEngine.Proofs.Expr.RoundTrip
import FlowEngine.Proofs.Expr.HelperErrors
import FlowEngine.Proofs.Expr.Depth
import FlowEngine.Proofs.Expr.Levels
import FlowEngine.Proofs.Keyed
import FlowEngine.Proofs.Param.Resolving
import FlowEngine.Proofs.Param.Hidden
import FlowEngine.Proofs.Param.Agreement
import FlowEngine.Proofs.Transcript
import FlowEngine.Proofs.Run.Visits
import FlowEngine.Proofs.Run.Tries
import FlowEngine.Proofs.Voice.Calls
import FlowEngine.Proofs.Voice.Cancellation
import FlowEngine.Proofs.Voice.Repeats
import FlowEngine.Proofs.Run.Destination
import FlowEngine.Proofs.Run.Guards
import FlowEngine.Proofs.Run.Refusal
import FlowEngine.Proofs.Http.Host
import FlowEngine.Proofs.Text.Search
import FlowEngine.Proofs.Http.Screening
import FlowEngine.Proofs.Expr.Relating
import FlowEngine.Proofs.Expr.Isolation
import FlowEngine.Proofs.Expr.Inquiries
import FlowEngine.Proofs.Active.Requests
import FlowEngine.Proofs.Active.Timeline
import FlowEngine.Proofs.Json.Fields
import FlowEngine.Proofs.Run.Written
import FlowEngine.Proofs.Run.Sharing
import FlowEngine.Proofs.Ascending
import FlowEngine.Proofs.Json.Plain
import FlowEngine.Proofs.Json.Numerals
import FlowEngine.Proofs.Json.Reading
import FlowEngine.Proofs.Json.Rendering
import FlowEngine.Proofs.Json.Shapes
import FlowEngine.Proofs.Json.Faithful
import FlowEngine.Proofs.Workflow.Reloading
import FlowEngine.Proofs.Json.Readers
import FlowEngine.Proofs.Run.Pinned
import FlowEngine.Proofs.Workflow.Pinning
import FlowEngine.Proofs.Breaks
import FlowEngine.Proofs.Run.Invocations
import FlowEngine.Proofs.Run.Limits
import FlowEngine.Proofs.Run.Lineage
import FlowEngine.Proofs.Script.Passage
import FlowEngine.Proofs.Graph.Order
import FlowEngine.Proofs.Run.Checking
import FlowEngine.Proofs.Run.Attempts
import FlowEngine.Proofs.Graph.Neighbours
import FlowEngine.Proofs.Graph.Connections
import FlowEngine.Proofs.Node.Routing
import FlowEngine.Proofs.Node.Fields
import FlowEngine.Proofs.Json.Paths
import FlowEngine.Proofs.Node.ReadBack
import FlowEngine.Proofs.Json.SortOrder
import FlowEngine.Proofs.StableSort
import FlowEngine.Proofs.Expr.Sorting
import FlowEngine.Proofs.Codec.Entity
import FlowEngine.Proofs.Expr.SortingByField
import FlowEngine.Proofs.Decimal.Limit
import FlowEngine.Proofs.Expr.Literals
import FlowEngine.Proofs.Query.Pipes
import FlowEngine.Proofs.Query.Nesting
import FlowEngine.Proofs.Json.Equality
import FlowEngine.Proofs.Expr.Breakdowns
import FlowEngine.Proofs.Expr.Precedence
import FlowEngine.Proofs.Expr.Renaming
import FlowEngine.Proofs.Expr.Slices
import FlowEngine.Proofs.Active.Activation
import FlowEngine.Proofs.Voice.Waiting
import FlowEngine.Proofs.Run.Counters
