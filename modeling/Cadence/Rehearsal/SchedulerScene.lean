import Cadence.Rehearsal.EngineScene
import Cadence.Scheduler.Step

/-!
The scheduler in a rehearsal.

Somebody starts and stops it, changes the plan, pauses, and lets time pass.  The
same requests can be made of any machine that has a scheduler in it.
-/

namespace Cadence

namespace Scheduler

def workerPrompts (name : WorkerName) : List SchedulerAction :=
  [.startWorker name, .stopWorker name, .takeOrder name]

def runPrompts : List SchedulerAction :=
  .stopTicking :: workerPrompts .primary ++ workerPrompts .secondary ++ [.join, .finishRun]

def changePrompts (s : Scheduler) : List SchedulerAction :=
  s.changes.toList.flatMap (fun (id, c) =>
    match c.stage with
    | .spawned => [.beginChange id]
    | .finishing _ false => [.reportChange id]
    | .finishing _ true => [.endChange id]
    | .applying _ | .ended => [])

/-- Changes and the engine come before the run; whoever calls comes when all others wait. -/
def prompts (cast : Cast) (now : Nat) (s : Scheduler) : List SchedulerAction :=
  s.changePrompts ++
    (s.engine.prompts cast now).map .engine ++
    (if s.run.isSome then runPrompts else []) ++
    s.lock.head?.toList.flatMap (fun caller => [.grant caller, .resume caller])

def workerWait (run : SchedulerRun) (name : WorkerName) : Option Wait :=
  match (run.worker name).stage with
  | .sending .. => some (.sink name)
  | _ => none

def runWaits (run : SchedulerRun) : List Wait :=
  (if run.stage = .ticking then [.tick] else []) ++
    [WorkerName.primary, .secondary].filterMap (workerWait run)

def waits (s : Scheduler) : List Wait :=
  s.engine.waits ++ (s.run.map runWaits).getD []

/-- How long the sink takes that comes next, of those that take batches in turn. -/
def sinkMillis (cast : Cast) (s : Scheduler) (name : WorkerName) : Nat :=
  match s.run with
  | none => 0
  | some run =>
      match (run.worker name).stage with
      | .sending _ _ rest =>
          ((cast.sinks[s.sinks.length - rest.length]?).map (·.millis)).getD 0
      | _ => 0

def begins (s : Scheduler) (cast : Cast) (now : Nat) : Wait → Begun SchedulerAction
  | .tick =>
      let period := s.settings.period.toMillisCeil
      { cast, timer := { due := some (now + period), actions := [.tick], period } }
  | .sink name =>
      { cast, timer := {
          due := some (now + s.sinkMillis cast name), actions := [.delivered name] } }
  | w =>
      let b := s.engine.begins cast now w
      { cast := b.cast
        asked := b.asked
        timer := { due := b.timer.due, actions := b.timer.actions.map .engine } }

def scene : Scene Scheduler SchedulerAction SchedulerEvent where
  step := Scheduler.step
  prompts := prompts
  waits := waits
  begins := begins
  collecting cast s := s.engine.collecting cast

end Scheduler

/-- A machine with a scheduler in it. -/
structure SchedulerLens (σ α : Type) where
  get : σ → Scheduler
  set : σ → Scheduler → σ
  act : SchedulerAction → α

namespace SchedulerLens

variable {σ α : Type}

def self : SchedulerLens Scheduler SchedulerAction := ⟨id, fun _ s => s, id⟩

def modify (lens : SchedulerLens σ α) (f : Scheduler → Scheduler) (m : σ) : σ :=
  lens.set m (f (lens.get m))

end SchedulerLens

/-- What is asked of a scheduler that may run. -/
inductive SchedulerRequest where
  | change (state : InstanceState) (plan : String)
  | wait
  | pause
  | sleep (millis : Nat)
  | jump (millis : Nat)
  | rescript (change : Cast → Cast)

inductive SchedulerAnswer where
  | done
  | ok
  | refused (reason : PlanError)
  | stuck

namespace Rehearsal

variable {σ α : Type}

/-- What a call to the scheduler has returned. -/
def returned? (r : Rehearsal σ α SchedulerEvent) (caller : Nat) : Option (Except PlanError Unit) :=
  r.events.findSome? (fun (_, event) =>
    match event with
    | .returned id result => if id = caller then some result else none
    | _ => none)

/-- Asks something of the scheduler from outside.  A machine that has the scheduler to itself may not
allow that; then it does not notice. -/
def ask (scene : Scene σ α SchedulerEvent) (lens : SchedulerLens σ α)
    (r : Rehearsal σ α SchedulerEvent) (action : SchedulerAction) : Rehearsal σ α SchedulerEvent :=
  match r.act scene (lens.act action) with
  | some r => refresh scene r
  | none => r.change scene (lens.modify (fun s => ((s.step action).map (·.1)).getD s))

/-- Calls the scheduler and waits for the call to return.  A call that finds the lock free goes
ahead at once; one that has to wait returns when nobody else has anything to do. -/
def call (scene : Scene σ α SchedulerEvent) (lens : SchedulerLens σ α)
    (r : Rehearsal σ α SchedulerEvent) (request : ChangeRequest) :
    Rehearsal σ α SchedulerEvent × SchedulerAnswer :=
  let caller := (lens.get r.machine).nextId
  let r := r.ask scene lens (.call request)
  let r := (r.perform scene [lens.act (.grant caller)]).await scene
    (fun r => (r.returned? caller).isSome)
  match r.returned? caller with
  | some (.ok ()) => (r, .ok)
  | some (.error e) => (r, .refused e)
  | none => (r.perform scene [lens.act (.dropCaller caller)], .stuck)

def request (scene : Scene σ α SchedulerEvent) (lens : SchedulerLens σ α)
    (r : Rehearsal σ α SchedulerEvent) :
    SchedulerRequest → Rehearsal σ α SchedulerEvent × SchedulerAnswer
  | .change state plan => r.call scene lens (.change state plan)
  | .wait => r.call scene lens .wait
  | .pause => (r.ask scene lens .pause, .done)
  | .sleep millis => (r.pass scene millis, .done)
  | .jump millis => (r.jump scene millis, .done)
  | .rescript change => ({ r with cast := change r.cast }, .done)

/-- The batches that sinks have taken, and when. -/
def deliveries (r : Rehearsal σ α SchedulerEvent) : List (Nat × String × Batch) :=
  r.eventsInOrder.filterMap (fun (t, event) =>
    match event with
    | .delivered _ sink batch => some (t, sink, batch)
    | _ => none)

/-- What the cast has noticed of the engine. -/
def noticed (r : Rehearsal σ α SchedulerEvent) : List EngineEvent :=
  r.eventsInOrder.filterMap (fun (_, event) =>
    match event with
    | .engine event => if Engine.isNoticed r.cast event then some event else none
    | _ => none)

end Rehearsal

structure SchedulerRehearsal where
  stage : Rehearsal Scheduler SchedulerAction SchedulerEvent
  /-- Whether a run has been started and not been stopped since. -/
  running : Bool := false

namespace SchedulerRehearsal

def create (settings : SchedulerSettings) (engine : EngineSettings) (store : PlanStore)
    (cast : Cast) : SchedulerRehearsal where
  stage := {
    machine := .create settings (.create engine ∅) store (cast.sinks.map (·.name))
    cast }

def start (r : SchedulerRehearsal) : SchedulerRehearsal where
  stage := (r.stage.perform Scheduler.scene [.startRun]).settle Scheduler.scene
  running := true

/-- Stops the run and waits for its end and for all that it brings about; unknown if there is no
run. -/
def stop (r : SchedulerRehearsal) : SchedulerRehearsal × Option SchedulerAnswer :=
  if r.running then
    let stage := ((r.stage.perform Scheduler.scene [.requestStop]).await Scheduler.scene
      (fun stage => stage.machine.run.isNone)).settle Scheduler.scene
    ({ stage }, some (if stage.machine.run.isNone then .ok else .stuck))
  else (r, none)

def request (r : SchedulerRehearsal) (what : SchedulerRequest) :
    SchedulerRehearsal × SchedulerAnswer :=
  let (stage, answer) := r.stage.request Scheduler.scene .self what
  ({ r with stage }, answer)

end SchedulerRehearsal

/-- Changes that a rehearsal may make to every batch. -/
inductive BatchEdit where
  /-- Adds how many values there are. -/
  | tag
  /-- Leaves no values. -/
  | clear
  deriving DecidableEq, Repr

def BatchEdit.apply (b : Batch) : BatchEdit → Batch
  | tag =>
      let counted := b.values["tag"]?.getD [] ++ [.gauge "count" (.ofNat b.size)]
      { b with values := b.values.insert "tag" counted }
  | clear => { b with values := ∅ }

end Cadence
