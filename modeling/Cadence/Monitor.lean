import Cadence.Adjuster.Step
import Cadence.Config
import Cadence.Scheduler.Step

/-!
The monitor of one instance as a machine: a scheduler with its engine and, where
a policy is configured, an adjuster that drives it.

A run starts the scheduler and then either lets the adjuster observe or
activates the configured plan.  A request to stop reaches the run of the
scheduler at once and the adjuster between two observations; the monitor's run
ends when both have ended.
-/

namespace Cadence

inductive MonitorStage where
  | idle
  /-- Waiting for the call that activates the configured plan. -/
  | activating (caller : Nat)
  /-- Waiting for the request to stop. -/
  | running
  /-- Waiting for the adjuster to stop. -/
  | adjusting
  /-- Waiting for the run of the scheduler to end. -/
  | closing (result : Except PlanError Unit)
  | ended (result : Except PlanError Unit)

/-- What has become of a change that the adjuster attempts. -/
inductive AttemptCall where
  | pending (caller : Nat)
  | answered (succeeded : Bool)
  deriving DecidableEq, Repr

structure Monitor where
  scheduler : Scheduler
  adjuster : Option Adjuster := none
  /-- The plan to activate if there is no adjuster. -/
  plan : String := ""
  stage : MonitorStage := .idle
  stopping : Bool := false
  attempt : Option AttemptCall := none

inductive MonitorAction where
  | scheduler (action : SchedulerAction)
  | adjuster (action : AdjusterAction)
  | run
  | stop
  /-- The adjuster learns what has become of its attempt. -/
  | settle (date : Utc)
  /-- The request to stop is noticed. -/
  | leave
  | finish
  deriving DecidableEq

namespace Monitor

abbrev Next := Option (Monitor × List SchedulerEvent)

/-- Puts the line of the adjuster on the status board. -/
def publish (m : Monitor) : Monitor :=
  match m.adjuster with
  | none => m
  | some a => { m with scheduler := m.scheduler.setStatus Adjuster.statusKey a.tracker.line }

def create (config : Config) (store : PlanStore) (sinks : List String)
    (transform : Option (Batch → Batch)) (now : Nat) (date : Utc) : Monitor :=
  let engine : EngineSettings := {
    monitorId := config.monitorId
    concurrency := config.concurrency
    connectTimeout := config.connectTimeout }
  let settings : SchedulerSettings := {
    monitorId := config.monitorId
    tick := config.tick
    transform }
  ({ scheduler := .create settings (.create engine ∅) store sinks
     adjuster := config.policy.map (fun p => .create p config.readOnlyTimeout now date)
     plan := config.plan } : Monitor).publish

def monitorId (m : Monitor) : String := m.scheduler.engine.settings.monitorId

/-- Whether a run has begun and not ended. -/
def isRunning (m : Monitor) : Bool :=
  match m.stage with
  | .idle | .ended _ => false
  | _ => true

/-- The outcome of the run that has ended. -/
def result? (m : Monitor) : Option (Except PlanError Unit) :=
  match m.stage with
  | .ended result => some result
  | _ => none

/-- Asks the run of the scheduler to stop. -/
def stopScheduler (m : Monitor) : Monitor :=
  match m.scheduler.requestStop with
  | some (scheduler, _) => { m with scheduler }
  | none => m

def run (m : Monitor) : Next :=
  if m.isRunning then none
  else
    m.scheduler.startRun.bind (fun (scheduler, events) =>
      let m := { m with scheduler, stopping := false }
      match m.adjuster with
      | none =>
          some ({ m with
            scheduler := scheduler.call (.change .active m.plan)
            stage := .activating scheduler.nextId }, events)
      | some a =>
          (a.step (.observe true)).map (fun (a, _) =>
            ({ m with adjuster := some a, stage := .adjusting }, events)))

def stop (m : Monitor) : Next :=
  if m.isRunning then some ({ m.stopScheduler with stopping := true }, []) else none

/-- Lets the run of the scheduler come to its end. -/
def close (m : Monitor) (result : Except PlanError Unit) : Monitor :=
  { m.stopScheduler with stage := .closing result }

/-- A call to the scheduler has returned; it may be one of the monitor's own. -/
def returned (m : Monitor) (caller : Nat) (result : Except PlanError Unit) : Monitor :=
  let m := if m.attempt = some (.pending caller) then
      { m with attempt := some (.answered result.isOk) }
    else m
  match m.stage with
  | .activating own =>
      if own = caller then
        match result with
        | .ok () => { m with stage := .running }
        | .error _ => m.close result
      else m
  | _ => m

def react (m : Monitor) : SchedulerEvent → Monitor
  | .returned caller result => m.returned caller result
  | _ => m

/-- Whether a call is one that the monitor waits for. -/
def owns (m : Monitor) (caller : Nat) : Bool :=
  m.attempt = some (.pending caller) ||
    match m.stage with
    | .activating own => own = caller
    | _ => false

/-- From outside, the scheduler can only be asked to wait for a change. -/
def allows (m : Monitor) : SchedulerAction → Bool
  | .startRun | .requestStop | .pause => false
  | .call request => request = .wait
  | .dropCaller caller => !m.owns caller
  | _ => true

def schedulerStep (m : Monitor) (action : SchedulerAction) : Next :=
  if m.allows action then
    (m.scheduler.step action).map (fun (scheduler, events) =>
      (events.foldl react { m with scheduler }, events))
  else none

/-- Makes the change that the adjuster attempts, or asks the scheduler for it. -/
def make (m : Monitor) (attempt : Attempt) : Monitor :=
  match attempt.call with
  | .pause => { m with scheduler := m.scheduler.pause, attempt := some (.answered true) }
  | .change state plan =>
      { m with
        scheduler := m.scheduler.call (.change state plan)
        attempt := some (.pending m.scheduler.nextId) }

/-- A step of the adjuster, and the attempt that it leads to. -/
def adjust (m : Monitor) (action : AdjusterAction) : Next :=
  m.adjuster.bind (fun a =>
    (a.step action).map (fun (a, attempt) =>
      let m := { m with adjuster := some a }.publish
      (match attempt with
        | none => m
        | some attempt => m.make attempt, [])))

def adjusterStep (m : Monitor) : AdjusterAction → Next
  | .standby answer => m.adjust (.standby answer)
  | .readOnly answer => m.adjust (.readOnly answer)
  | .take now date => m.adjust (.take now date)
  | .wake => m.adjust .wake
  | _ => none

def settle (m : Monitor) (date : Utc) : Next :=
  match m.attempt with
  | some (.answered succeeded) => { m with attempt := none }.adjust (.settled succeeded date)
  | _ => none

def leave (m : Monitor) : Next :=
  if m.stopping then
    match m.stage with
    | .running => some (m.close (.ok ()), [])
    | .adjusting => (m.adjust .stop).map (fun (m, events) => (m.close (.ok ()), events))
    | _ => none
  else none

def finish (m : Monitor) : Next :=
  match m.stage with
  | .closing result =>
      if m.scheduler.run.isNone then some ({ m with stage := .ended result }, []) else none
  | _ => none

def step (m : Monitor) : MonitorAction → Option (Monitor × List SchedulerEvent)
  | .scheduler action => m.schedulerStep action
  | .adjuster action => m.adjusterStep action
  | .run => m.run
  | .stop => m.stop
  | .settle date => m.settle date
  | .leave => m.leave
  | .finish => m.finish

end Monitor

end Cadence
