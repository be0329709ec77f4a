import Cadence.Instance
import Cadence.Main
import Cadence.Plan.Edit
import Cadence.Plan.Json
import Cadence.Proofs.Plan.Names
import Cadence.Proofs.Run
import Cadence.Rehearsal.MonitorScene
import Cadence.Proofs.Rehearsal.Scenes
import Cadence.Table.Lemmas
import Cadence.Proofs.Engine.Actions
import Cadence.Proofs.Engine.Consistency
import Cadence.Proofs.Engine.OnePlan
import Cadence.Proofs.Adjuster.Hysteresis
import Cadence.Proofs.Plan.Inheritance
import Cadence.Proofs.Plan.DueLevel
import Cadence.Proofs.Scheduler.Actions
import Cadence.Proofs.Scheduler.Moves
import Cadence.Proofs.Scheduler.Pausing
import Cadence.Proofs.Monitor.Actions
import Cadence.Proofs.Monitor.Stopping
import Cadence.Proofs.Plan.Narrowing
import Cadence.Proofs.Engine.Signals
import Cadence.Proofs.Engine.Cancelling
import Cadence.Proofs.Scheduler.Preparing
import Cadence.Proofs.Scheduler.Superseding
import Cadence.Proofs.Scheduler.Turns
import Cadence.Proofs.Scheduler.Succession
import Cadence.Proofs.Scheduler.Agreement
import Cadence.Proofs.Scheduler.Driving
import Cadence.Proofs.Scheduler.Accounting
import Cadence.Proofs.Engine.Tasks
import Cadence.Proofs.Engine.Coverage
import Cadence.Proofs.Scheduler.Dispatching
import Cadence.Proofs.Engine.Recording
import Cadence.Proofs.Engine.Reports
import Cadence.Proofs.Engine.ErrorLines
import Cadence.Proofs.Engine.Errors
import Cadence.Proofs.Scheduler.InForce
import Cadence.Proofs.Scheduler.Resuming
import Cadence.Proofs.Monitor.Moves
import Cadence.Proofs.Monitor.Activating
import Cadence.Proofs.Scheduler.Labels
import Cadence.Proofs.Engine.Renumbering
import Cadence.Proofs.Engine.Mirroring
import Cadence.Proofs.Engine.FailedPreparations
import Cadence.Proofs.Plan.Loading
import Cadence.Proofs.Engine.CleaningUp
import Cadence.Proofs.Scheduler.Orphans
import Cadence.Proofs.Scheduler.StatusLine
import Cadence.Proofs.Scheduler.Closing
import Cadence.Proofs.Monitor.Stages
import Cadence.Proofs.Monitor.Ending
import Cadence.Proofs.Adjuster.Tracking
import Cadence.Proofs.Plan.Accumulating
import Cadence.Proofs.Command.Checking
import Cadence.Proofs.Metric.ReadBack
import Cadence.Proofs.Plan.Resorting
import Cadence.Proofs.Plan.Fetching
import Cadence.Proofs.Engine.Instances
import Cadence.Proofs.Adjuster.Pacing
import Cadence.Proofs.Engine.Permits
import Cadence.Proofs.Engine.ReadyLine
import Cadence.Proofs.Scheduler.Sparing
import Cadence.Proofs.Scheduler.Refusals
import Cadence.Proofs.Collector.Measuring
import Cadence.Proofs.Collector.Finite
import Cadence.Proofs.Plan.Rebuilding
