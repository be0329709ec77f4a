import Cadence.Monitor
import Cadence.Rehearsal.AdjusterScene
import Cadence.Rehearsal.SchedulerScene

/-!
The monitor in a rehearsal.
-/

namespace Cadence

namespace Monitor

/-- Whether the state of the adjuster cannot be looked at, because it is changing. -/
def isAdjusting (m : Monitor) : Bool := m.attempt.isSome

def prompts (cast : Cast) (now : Nat) (m : Monitor) : List MonitorAction :=
  [.settle (.ofMillis now), .leave, .finish] ++
    ((m.adjuster.map (fun a => a.prompts now)).getD []).map .adjuster ++
    (m.scheduler.prompts cast now).map .scheduler

def waits (m : Monitor) : List Wait :=
  m.scheduler.waits ++ (m.adjuster.map Adjuster.waits).getD []

def ofScheduler (b : Begun SchedulerAction) : Begun MonitorAction where
  cast := b.cast
  asked := b.asked
  timer := {
    due := b.timer.due
    actions := b.timer.actions.map .scheduler
    period := b.timer.period }

def ofAdjuster (b : Begun AdjusterAction) : Begun MonitorAction where
  cast := b.cast
  asked := b.asked
  timer := { due := b.timer.due, actions := b.timer.actions.map .adjuster }

def begins (m : Monitor) (cast : Cast) (now : Nat) (w : Wait) : Begun MonitorAction :=
  match m.adjuster, w with
  | some a, .standby | some a, .readOnly | some a, .nap => ofAdjuster (a.begins cast now w)
  | _, _ => ofScheduler (m.scheduler.begins cast now w)

def scene : Scene Monitor MonitorAction SchedulerEvent where
  step := Monitor.step
  prompts := prompts
  waits := waits
  begins := begins
  collecting cast m := m.scheduler.engine.collecting cast

def schedulerLens : SchedulerLens Monitor MonitorAction where
  get := scheduler
  set m s := { m with scheduler := s }
  act := .scheduler

end Monitor

structure MonitorRehearsal where
  stage : Rehearsal Monitor MonitorAction SchedulerEvent
  /-- Whether a run has been started and not been stopped since. -/
  running : Bool := false

/-- What has become of a run that was to be stopped. -/
inductive MonitorEnd where
  | ended (result : Except PlanError Unit)
  | stuck
  | notRunning

namespace MonitorRehearsal

def create (config : Config) (store : PlanStore) (transform : Option (Batch → Batch))
    (cast : Cast) : MonitorRehearsal where
  stage := {
    machine := .create config store (cast.sinks.map (·.name)) transform (Adjuster.instant 0) .epoch
    cast }

/-- Starts a run and says whether it has ended already. -/
def start (r : MonitorRehearsal) : MonitorRehearsal × Bool :=
  let stage := (r.stage.perform Monitor.scene [.run]).settle Monitor.scene
  ({ stage, running := true }, !stage.machine.isRunning)

/-- Stops the run and waits for its end and for all that it brings about. -/
def stop (r : MonitorRehearsal) : MonitorRehearsal × MonitorEnd :=
  if r.running then
    let stage := ((r.stage.perform Monitor.scene [.stop]).await Monitor.scene
      (fun stage => !stage.machine.isRunning)).settle Monitor.scene
    ({ stage }, stage.machine.result?.elim .stuck .ended)
  else (r, .notRunning)

def request (r : MonitorRehearsal) (what : SchedulerRequest) :
    MonitorRehearsal × SchedulerAnswer :=
  let (stage, answer) := r.stage.request Monitor.scene Monitor.schedulerLens what
  ({ r with stage }, answer)

end MonitorRehearsal

end Cadence
