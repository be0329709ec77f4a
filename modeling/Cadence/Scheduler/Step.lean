import Cadence.Scheduler.Changing

/-!
The scheduler as a machine around the engine.

Actions of the engine are actions of the scheduler, except those by which
somebody asks the engine for something: these the scheduler itself does.
-/

namespace Cadence

/-- Whether an action goes on with what has been asked for already. -/
def EngineAction.isInner : EngineAction → Bool
  | beginPrepare .. | cancel _ | dropPreparation _ | beginCollect _ | dropRound _ => false
  | _ => true

inductive SchedulerAction where
  | engine (action : EngineAction)
  | startRun
  | requestStop
  | tick
  | stopTicking
  | startWorker (name : WorkerName)
  | takeOrder (name : WorkerName)
  | delivered (name : WorkerName)
  | stopWorker (name : WorkerName)
  | join
  | finishRun
  | call (request : ChangeRequest)
  | grant (caller : Nat)
  | resume (caller : Nat)
  | dropCaller (caller : Nat)
  | beginChange (change : Nat)
  | reportChange (change : Nat)
  | endChange (change : Nat)
  | pause
  deriving DecidableEq

namespace Scheduler

/-- What an event of the engine means for the scheduler. -/
def react (s : Scheduler) (event : EngineEvent) : Scheduler × List SchedulerEvent :=
  let (s, events) := match event with
    | .after preparation => s.activate preparation
    | .prepared preparation outcome => s.preparationEnded preparation outcome
    | .collected round batch => (s.roundEnded round batch, [])
    | _ => (s, [])
  (s, .engine event :: events)

def reactAll (s : Scheduler) : List EngineEvent → Scheduler × List SchedulerEvent
  | [] => (s, [])
  | event :: rest =>
      let (s, first) := s.react event
      let (s, more) := s.reactAll rest
      (s, first ++ more)

def engineStep (s : Scheduler) (action : EngineAction) : Next :=
  if action.isInner then
    (s.engine.step action).map (fun (engine, events) => { s with engine }.reactAll events)
  else none

def step (s : Scheduler) : SchedulerAction → Option (Scheduler × List SchedulerEvent)
  | .engine action => s.engineStep action
  | .startRun => s.startRun
  | .requestStop => s.requestStop
  | .tick => s.tick
  | .stopTicking => s.stopTicking
  | .startWorker name => s.startWorker name
  | .takeOrder name => s.takeOrder name
  | .delivered name => s.delivered name
  | .stopWorker name => s.stopWorker name
  | .join => s.join
  | .finishRun => s.finishRun
  | .call request => if request = .shutdown then none else some (s.call request, [])
  | .grant caller => s.grant caller
  | .resume caller => s.resume caller
  | .dropCaller caller => s.dropCaller caller
  | .beginChange change => s.beginChange change
  | .reportChange change => s.reportChange change
  | .endChange change => s.endChange change
  | .pause => some (s.pause, [])

end Scheduler

end Cadence
