import Cadence.Duration.Basic
import Cadence.Metric.Batch
import Cadence.Text.Basic

/-!
The settings of a level scheduler.
-/

namespace Cadence

structure SchedulerSettings where
  monitorId : String := ""
  /-- The time between ticks; none at all counts as a second. -/
  tick : Duration := .ofSecs 1
  /-- Applied to every batch before it is sent. -/
  transform : Option (Batch → Batch) := none

namespace SchedulerSettings

def defaultTick : Duration := .ofSecs 1

/-- The time between ticks that counts. -/
def period (s : SchedulerSettings) : Duration := if s.tick.isZero then defaultTick else s.tick

def transformed (s : SchedulerSettings) (b : Batch) : Batch :=
  match s.transform with
  | some f => f b
  | none => b

/-- The settings on one line; of the transformation it only says whether there is one. -/
def describe (s : SchedulerSettings) : String :=
  "SchedulerConfig \x7b monitor_id: " ++ Text.quoted s.monitorId ++ ", tick: " ++ s.tick.render ++
    ", transform: " ++ (if s.transform.isSome then "true" else "false") ++ " \x7d"

end SchedulerSettings

end Cadence
