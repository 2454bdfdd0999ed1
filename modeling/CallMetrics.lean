import CallMetrics.Main
import CallMetrics.Proofs.Calls.Interleaved
import CallMetrics.Proofs.Calls.Levels
import CallMetrics.Proofs.Calls.Memo
import CallMetrics.Proofs.Calls.Nested
import CallMetrics.Proofs.Calls.Overhead
import CallMetrics.Proofs.Calls.Overlapping
import CallMetrics.Proofs.Calls.Programs
import CallMetrics.Proofs.Calls.Unbalanced
import CallMetrics.Proofs.Calls.Users
import CallMetrics.Proofs.CommandLine.Failures
import CallMetrics.Proofs.Config.Sources
import CallMetrics.Proofs.Config.Written
import CallMetrics.Proofs.Engine.Clients
import CallMetrics.Proofs.Engine.Tally
import CallMetrics.Proofs.Identity.Guards
import CallMetrics.Proofs.Joining.Sharing
import CallMetrics.Proofs.Json.Wire
import CallMetrics.Proofs.Key.Parts
import CallMetrics.Proofs.Log.Inherited
import CallMetrics.Proofs.Log.Lines
import CallMetrics.Proofs.Metric.Admission
import CallMetrics.Proofs.Metric.Averages
import CallMetrics.Proofs.Metric.Forgetting
import CallMetrics.Proofs.Metric.Refinement
import CallMetrics.Proofs.Metric.Rows
import CallMetrics.Proofs.Simulation.Accounts
import CallMetrics.Proofs.Sink.Deliveries
import CallMetrics.Proofs.Timing.Sections
import CallMetrics.Scenario.Run
