import Cadence.Engine.Step
import Cadence.Plan.Order
import Cadence.Plan.Store
import Cadence.Scheduler.Settings

/-!
The state of the level scheduler.

A run counts ticks and hands the level that is due to one of two workers, each
of which has room for one order in front of it.  Plan changes are asked for one
at a time, under a lock that callers get in turn; each change is a task of its
own, and the latest one accepted is remembered so that the next can end it.
-/

namespace Cadence

/-- A round for a worker: the level due at a tick, with the plan and the state it is due under. -/
structure Order where
  tick : Nat
  level : String
  plan : String
  state : InstanceState
  deriving DecidableEq, Repr

inductive WorkerName where
  | primary
  | secondary
  deriving DecidableEq, Repr

def WorkerName.text : WorkerName → String
  | primary => "primary"
  | secondary => "secondary"

inductive WorkerStage where
  | starting
  /-- Waiting for an order. -/
  | waiting
  | collecting (order : Order) (round : Nat)
  /-- Waiting for the first of these sinks to take the batch. -/
  | sending (order : Order) (batch : Batch) (sinks : List String)
  | stopped
  deriving DecidableEq

structure Worker where
  stage : WorkerStage := .starting
  /-- Set by the worker when it waits, cleared by whoever hands it an order. -/
  idle : Bool := false
  inbox : Option Order := none
  deriving DecidableEq

inductive RunStage where
  | ticking
  /-- Waiting for the workers to stop. -/
  | joining
  /-- Waiting for the change in flight to end, as the caller of this number. -/
  | settling (caller : Nat)
  /-- Has given the lock back and has only to say that it is over. -/
  | closing
  deriving DecidableEq

structure SchedulerRun where
  /-- Ticks so far. -/
  ticks : Nat := 0
  stopping : Bool := false
  stage : RunStage := .ticking
  primary : Worker := {}
  secondary : Worker := {}
  deriving DecidableEq

inductive ChangeStage where
  /-- Not begun yet. -/
  | spawned
  | applying (preparation : Nat)
  /-- The preparation has ended, and the task may have told how. -/
  | finishing (outcome : PrepareOutcome) (told : Bool)
  | ended
  deriving DecidableEq

/-- The task that prepares a plan and then schedules its levels. -/
structure PlanChange where
  plan : Plan
  levels : List SortedLevel
  state : InstanceState
  cancelled : Bool := false
  stage : ChangeStage := .spawned
  deriving DecidableEq

inductive ChangeRequest where
  | change (state : InstanceState) (plan : String)
  /-- To wait for the change in flight. -/
  | wait
  /-- To end the change in flight, at the end of a run. -/
  | shutdown
  deriving DecidableEq

inductive CallerStage where
  /-- Waiting for the lock. -/
  | queued
  /-- Has the lock and waits for the end of an earlier change. -/
  | awaiting (change : Nat)
  deriving DecidableEq

structure Caller where
  request : ChangeRequest
  stage : CallerStage := .queued
  deriving DecidableEq

/-- What is scheduled. -/
structure Active where
  levels : List SortedLevel := []
  state : Option InstanceState := none
  plan : String := ""
  deriving DecidableEq, Inhabited

structure Scheduler where
  settings : SchedulerSettings
  engine : Engine
  store : PlanStore
  /-- The names of the sinks, in the order in which they get a batch. -/
  sinks : List String
  active : Active := {}
  paused : Bool := false
  /-- Whether a change is in flight, during which no tick counts. -/
  changing : Bool := false
  /-- Ticks for which no worker was free. -/
  dropped : Nat := 0
  run : Option SchedulerRun := none
  changes : Table Nat PlanChange := ∅
  /-- The change accepted last, unless it has been awaited. -/
  latest : Option Nat := none
  callers : Table Nat Caller := ∅
  /-- The callers that have or want the lock, in turn. -/
  lock : List Nat := []
  nextId : Nat := 0

inductive SchedulerEvent where
  | engine (event : EngineEvent)
  /-- A call has returned. -/
  | returned (caller : Nat) (result : Except PlanError Unit)
  /-- The levels of a prepared plan are scheduled from now on. -/
  | activated (change : Nat)
  | changeEnded (change : Nat) (outcome : PrepareOutcome)
  | handed (worker : WorkerName) (order : Order)
  | droppedTick (tick : Nat)
  | delivered (worker : WorkerName) (sink : String) (batch : Batch)
  /-- The run is over. -/
  | stopped

namespace Scheduler

def statusKey : String := "level-scheduler"

def workerKey (w : WorkerName) : String := statusKey ++ "/" ++ w.text

def setStatus (s : Scheduler) (key text : String) : Scheduler :=
  { s with engine := { s.engine with board := s.engine.board.set key text } }

def say (s : Scheduler) (text : String) : Scheduler := s.setStatus statusKey text

def create (settings : SchedulerSettings) (engine : Engine) (store : PlanStore)
    (sinks : List String) : Scheduler :=
  ({ settings, engine, store, sinks } : Scheduler).say "no plan"

def status (s : Scheduler) : String := (s.engine.board.get? statusKey).getD ""

end Scheduler

namespace SchedulerRun

def worker (r : SchedulerRun) : WorkerName → Worker
  | .primary => r.primary
  | .secondary => r.secondary

def setWorker (r : SchedulerRun) (name : WorkerName) (w : Worker) : SchedulerRun :=
  match name with
  | .primary => { r with primary := w }
  | .secondary => { r with secondary := w }

end SchedulerRun

end Cadence
