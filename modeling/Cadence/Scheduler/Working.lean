import Cadence.Scheduler.Basic

/-!
The run of a scheduler: ticks, workers and the way to the end.
-/

namespace Cadence.Scheduler

abbrev Next := Option (Scheduler × List SchedulerEvent)

/-- What `step` makes of the run, if there is one. -/
def withRun (s : Scheduler) (step : SchedulerRun → Next) : Next := s.run.bind step

def setWorker (s : Scheduler) (run : SchedulerRun) (name : WorkerName) (w : Worker) : Scheduler :=
  { s with run := some (run.setWorker name w) }

def startRun (s : Scheduler) : Next :=
  if s.run.isNone then some ({ s with run := some {} }, []) else none

def requestStop (s : Scheduler) : Next :=
  s.withRun (fun run => some ({ s with run := some { run with stopping := true } }, []))

/-- The order that a tick gives rise to. -/
def orderAt (s : Scheduler) (tick : Nat) : Option Order :=
  if s.paused || s.changing then none
  else
    match dueLevel? s.active.levels tick, s.active.state with
    | some level, some state =>
        some { tick, level := level.name, plan := s.active.plan, state }
    | _, _ => none

/--
Offers an order to the workers in turn and tells who takes it.  A worker that
says it waits is asked no more until it says so again, even if it has an order
already and cannot take another.
-/
def offer (order : Order) (run : SchedulerRun) : List WorkerName → SchedulerRun × Option WorkerName
  | [] => (run, none)
  | name :: rest =>
      let w := run.worker name
      if !w.idle then offer order run rest
      else if w.inbox.isNone then
        (run.setWorker name { w with idle := false, inbox := some order }, some name)
      else offer order (run.setWorker name { w with idle := false }) rest

/-- The ticker strikes. -/
def tick (s : Scheduler) : Next :=
  s.withRun (fun run =>
    if run.stage = .ticking then
      let run := { run with ticks := run.ticks + 1 }
      match s.orderAt run.ticks with
      | none => some ({ s with run := some run }, [])
      | some order =>
          match offer order run [.primary, .secondary] with
          | (run, some name) => some ({ s with run := some run }, [.handed name order])
          | (run, none) =>
              some ({ s with run := some run, dropped := s.dropped + 1 },
                [.droppedTick run.ticks])
    else none)

/-- The ticker notices that the run is to stop. -/
def stopTicking (s : Scheduler) : Next :=
  s.withRun (fun run =>
    if run.stage = .ticking ∧ run.stopping then
      some ({ s with run := some { run with stage := .joining } }, [])
    else none)

/-- The worker is ready for another order. -/
def rest (s : Scheduler) (run : SchedulerRun) (name : WorkerName) (w : Worker) : Scheduler :=
  (s.setWorker run name { w with stage := .waiting, idle := true }).setStatus (workerKey name) "idle"

def startWorker (s : Scheduler) (name : WorkerName) : Next :=
  s.withRun (fun run =>
    let w := run.worker name
    if w.stage = .starting then some (s.rest run name w, []) else none)

/-- The worker takes the order in front of it and begins to collect. -/
def takeOrder (s : Scheduler) (name : WorkerName) : Next :=
  s.withRun (fun run =>
    let w := run.worker name
    match w.stage, w.inbox with
    | .waiting, some order =>
        let s := s.setStatus (workerKey name) s!"collecting plan {order.plan} level {order.level}"
        let round := s.engine.nextId
        let w := { w with stage := .collecting order round, inbox := none }
        some (({ s with engine := s.engine.beginCollect order.level }).setWorker run name w, [])
    | _, _ => none)

/-- Hands a batch to the sinks, or rests if there are none left. -/
def send (s : Scheduler) (run : SchedulerRun) (name : WorkerName) (w : Worker) (order : Order)
    (batch : Batch) (sinks : List String) : Scheduler :=
  if sinks.isEmpty then s.rest run name w
  else s.setWorker run name { w with stage := .sending order batch sinks }

/-- A sink has taken a batch, or failed to; either way the next one gets it. -/
def delivered (s : Scheduler) (name : WorkerName) : Next :=
  s.withRun (fun run =>
    let w := run.worker name
    match w.stage with
    | .sending order batch (sink :: sinks) =>
        some (s.send run name w order batch sinks, [.delivered name sink batch])
    | _ => none)

/-- The worker, if it collects this round, gets its batch: with the order's state and transformed. -/
def handBatch (s : Scheduler) (run : SchedulerRun) (name : WorkerName) (round : Nat)
    (batch : Batch) : Option Scheduler :=
  let w := run.worker name
  match w.stage with
  | .collecting order r =>
      if r = round then
        let batch := s.settings.transformed { batch with state := order.state }
        some (s.send run name w order batch s.sinks)
      else none
  | _ => none

/-- A round has ended, maybe one of a worker. -/
def roundEnded (s : Scheduler) (round : Nat) (batch : Batch) : Scheduler :=
  match s.run with
  | none => s
  | some run =>
      ((s.handBatch run .primary round batch).or (s.handBatch run .secondary round batch)).getD s

/-- The worker leaves off, whatever it is doing; a round that it collects is dropped. -/
def stopWorker (s : Scheduler) (name : WorkerName) : Next :=
  s.withRun (fun run =>
    let w := run.worker name
    let stop (s : Scheduler) : Next :=
      some (s.setWorker run name { stage := .stopped, idle := false, inbox := none }, [])
    match w.stage with
    | .collecting _ round =>
        if run.stopping then stop { s with engine := s.engine.dropRound round } else none
    | .waiting =>
        if run.stopping || (run.stage = .joining && w.inbox.isNone) then stop s else none
    | .sending .. => if run.stopping then stop s else none
    | .starting | .stopped => none)

end Cadence.Scheduler
