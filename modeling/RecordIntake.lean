import RecordIntake.Client.Rebalance
import RecordIntake.Main
import RecordIntake.Monitoring.Routes
import RecordIntake.Proofs.Capacity
import RecordIntake.Proofs.ClientProperties
import RecordIntake.Proofs.Conservation
import RecordIntake.Proofs.Cycles
import RecordIntake.Proofs.Declaration
import RecordIntake.Proofs.Delivery
import RecordIntake.Proofs.Emitted
import RecordIntake.Proofs.Expiry
import RecordIntake.Proofs.Headers
import RecordIntake.Proofs.Interruption
import RecordIntake.Proofs.Metadata
import RecordIntake.Proofs.Notifications
import RecordIntake.Proofs.Outcomes
import RecordIntake.Proofs.Overrides
import RecordIntake.Proofs.Overtaking
import RecordIntake.Proofs.ParseFailures
import RecordIntake.Proofs.PollBounds
import RecordIntake.Proofs.Queries
import RecordIntake.Proofs.Records
import RecordIntake.Proofs.Refusal
import RecordIntake.Proofs.Schema
import RecordIntake.Proofs.Selection
import RecordIntake.Proofs.Shutdown
import RecordIntake.Proofs.Stopping
import RecordIntake.Proofs.Summary
import RecordIntake.Proofs.Tiling
import RecordIntake.Proofs.Views
import RecordIntake.Proofs.Wakeups
import RecordIntake.Proofs.WellFormed
import RecordIntake.Scenario.Bench
import RecordIntake.Scenario.Offline
import RecordIntake.Scenario.Script
import RecordIntake.Scenario.Signals
import RecordIntake.Sink.JsonLines
