import ControlNode.Attr.Standard
import ControlNode.CommandLine
import ControlNode.Config.Load
import ControlNode.Device.Registry
import ControlNode.Event
import ControlNode.Expiry
import ControlNode.Expr.Eval
import ControlNode.Expr.Loop
import ControlNode.Expr.Parser
import ControlNode.Json.Parser
import ControlNode.Json.Printer
import ControlNode.Main
import ControlNode.Node.Management
import ControlNode.Port.Domain
import ControlNode.Port.Queue
import ControlNode.Port.Sequence
import ControlNode.Proofs.Expr.Dependence
import ControlNode.Proofs.Expr.LoopSearch
import ControlNode.Proofs.Expr.RoundTrip
import ControlNode.Proofs.Node.Refusals
import ControlNode.Proofs.Node.Saving
import ControlNode.Proofs.Node.Settling
import ControlNode.Proofs.Node.ChangedSet
import ControlNode.Proofs.Node.WriteRuns
import ControlNode.Proofs.Store.CrashRecovery
import ControlNode.Proofs.Store.Durability
import ControlNode.Server
import ControlNode.Store.Backend
import ControlNode.Proofs.Store.Filters
import ControlNode.Proofs.Decimal.Doubles
import ControlNode.Proofs.Decimal.ReadBack
import ControlNode.Proofs.Expr.Reprint
import ControlNode.Proofs.Node.Additions
import ControlNode.Proofs.Node.Restarts
import ControlNode.Proofs.Node.Failures
import ControlNode.Proofs.Node.FirstTicks
import ControlNode.Proofs.Node.Series
import ControlNode.Proofs.Node.ValueLogs
import ControlNode.Proofs.Node.Lifecycles
import ControlNode.Proofs.Expr.Delay
import ControlNode.Proofs.Node.Reports
import ControlNode.Proofs.Node.Typing
import ControlNode.Proofs.Expr.Visits
import ControlNode.Proofs.Expr.Repeats
import ControlNode.Proofs.Expr.Faults
import ControlNode.Proofs.Expr.Positions
import ControlNode.Proofs.Expr.Spans
import ControlNode.Proofs.Expr.Transforms
import ControlNode.Proofs.Store.Rejections
import ControlNode.Proofs.Store.Effects
import ControlNode.Proofs.Store.Selection
import ControlNode.Proofs.Store.RecordMaps
import ControlNode.Proofs.Store.FreshIds
import ControlNode.Proofs.Store.Sorting
import ControlNode.Proofs.Store.Operators
import ControlNode.Proofs.Store.FailedWrites
import ControlNode.Proofs.Port.Pending
import ControlNode.Proofs.Node.ValueStreams
import ControlNode.Proofs.Node.Cadences
import ControlNode.Proofs.Port.Consumers
import ControlNode.Proofs.Node.Evaluations
import ControlNode.Proofs.Node.Caches
import ControlNode.Proofs.Attr.Schemas
import ControlNode.Proofs.Node.Sequences
import ControlNode.Proofs.Node.Loading
import ControlNode.Proofs.Expr.Intervals
