import Cadence.Scheduler.Working

/-!
Plan changes of a scheduler.

Whoever has the lock ends the change accepted before, waits until its task is
over, and only then starts another.  A name that is not loaded is refused before
anything is touched.
-/

namespace Cadence.Scheduler

def changingText (plan : String) (state : InstanceState) : String :=
  s!"changing plan to {plan} ({state.text})"

def activeText (plan : String) (state : InstanceState) : String := s!"plan {plan} ({state.text})"

def failedText (plan : String) (chain : ErrorChain) : String :=
  s!"plan {plan} failed: {chain.joined}"

def setChange (s : Scheduler) (id : Nat) (c : PlanChange) : Scheduler :=
  { s with changes := s.changes.insert id c }

def pause (s : Scheduler) : Scheduler := ({ s with paused := true }).say "paused"

/-- Asks for the lock. -/
def call (s : Scheduler) (request : ChangeRequest) : Scheduler :=
  { s with
    callers := s.callers.insert s.nextId { request }
    lock := s.lock ++ [s.nextId]
    nextId := s.nextId + 1 }

/-- Gives the lock back. -/
def release (s : Scheduler) (caller : Nat) : Scheduler :=
  { s with callers := s.callers.erase caller, lock := s.lock.filter (· ≠ caller) }

def returns (s : Scheduler) (caller : Nat) (result : Except PlanError Unit) :
    Scheduler × List SchedulerEvent :=
  (s.release caller, [.returned caller result])

/-- Cancels the token of a change. -/
def cancelChange (s : Scheduler) (id : Nat) : Scheduler :=
  match s.changes[id]? with
  | none => s
  | some c =>
      let s := s.setChange id { c with cancelled := true }
      match c.stage with
      | .applying preparation =>
          match s.engine.cancelPreparation preparation with
          | some (engine, _) => { s with engine }
          | none => s
      | _ => s

def hasEnded (s : Scheduler) (change : Nat) : Bool :=
  (s.changes[change]?.map (·.stage)).all (· = .ended)

/-- Accepts a plan: ticks stop counting, and the task that prepares it is there. -/
def accept (s : Scheduler) (caller : Nat) (state : InstanceState) (plan : Plan)
    (levels : List SortedLevel) : Scheduler × List SchedulerEvent :=
  ({ s.setChange s.nextId { plan, levels, state } with
    changing := true
    latest := some s.nextId
    nextId := s.nextId + 1 }).returns caller (.ok ())

/-- The plan of this name in the order of its levels. -/
def findSorted (s : Scheduler) (name : String) : Except PlanError (List SortedLevel × Plan) :=
  (s.store.find name).bind Plan.sort

/-- No change is in flight any more: the run gives the lock back. -/
def closeRun (s : Scheduler) (caller : Nat) : Scheduler :=
  { s.release caller with run := s.run.map (fun run => { run with stage := .closing }) }

/-- The caller waits for the end of a change. -/
def await (s : Scheduler) (caller : Nat) (request : ChangeRequest) (change : Nat) : Scheduler :=
  { s with callers := s.callers.insert caller { request, stage := .awaiting change } }

/-- Ends the change accepted last, which is nobody's to end any more. -/
def takeOver (s : Scheduler) (change : Nat) : Scheduler :=
  { s with latest := none }.cancelChange change

/-- The caller whose turn it is gets the lock. -/
def grant (s : Scheduler) (id : Nat) : Next :=
  if s.lock.head? = some id then
    match s.callers[id]? with
    | some { request, stage := .queued } =>
        match request with
        | .change state name =>
            match s.findSorted name with
            | .error e => some (s.returns id (.error e))
            | .ok (levels, plan) =>
                match s.latest with
                | none => some (s.accept id state plan levels)
                | some change => some ((s.takeOver change).await id request change, [])
        | .wait =>
            match s.latest with
            | none => some (s.returns id (.ok ()))
            | some change => some (s.await id request change, [])
        | .shutdown =>
            match s.latest with
            | none => some (s.closeRun id, [])
            | some change => some ((s.takeOver change).await id request change, [])
    | _ => none
  else none

/-- The change that a caller waited for has ended. -/
def resume (s : Scheduler) (id : Nat) : Next :=
  match s.callers[id]? with
  | some { request, stage := .awaiting change } =>
      if s.hasEnded change then
        match request with
        | .change state name =>
            match s.findSorted name with
            | .error e => some (s.returns id (.error e))
            | .ok (levels, plan) => some (s.accept id state plan levels)
        | .wait => some ({ s with latest := none }.returns id (.ok ()))
        | .shutdown => some (s.closeRun id, [])
      else none
  | _ => none

/-- A caller gives up; what it has already done stays done. -/
def dropCaller (s : Scheduler) (id : Nat) : Next :=
  match s.callers[id]? with
  | some { request := .change .., .. } | some { request := .wait, .. } => some (s.release id, [])
  | _ => none

/-- The task of a change begins. -/
def beginChange (s : Scheduler) (id : Nat) : Next :=
  s.changes[id]?.bind (fun c =>
    if c.stage = .spawned then
      let s := s.say (changingText c.plan.name c.state)
      let preparation := s.engine.nextId
      some ({ s with engine := s.engine.beginPrepare c.plan c.cancelled }.setChange id
        { c with stage := .applying preparation }, [])
    else none)

/-- The change that prepares in the engine under this number. -/
def changeOf? (s : Scheduler) (preparation : Nat) : Option (Nat × PlanChange) :=
  s.changes.toList.find? (fun (_, c) => c.stage = .applying preparation)

/-- The plan of a change has been swapped in: its levels are scheduled, and a pause is over. -/
def activate (s : Scheduler) (preparation : Nat) : Scheduler × List SchedulerEvent :=
  match s.changeOf? preparation with
  | none => (s, [])
  | some (id, c) =>
      ({ s with
        active := { levels := c.levels, state := some c.state, plan := c.plan.name }
        paused := false }, [.activated id])

/-- The preparation of a change has ended; if it has panicked, so does the task of the change. -/
def preparationEnded (s : Scheduler) (preparation : Nat) (outcome : PrepareOutcome) :
    Scheduler × List SchedulerEvent :=
  match s.changeOf? preparation with
  | none => (s, [])
  | some (id, c) =>
      if outcome = .panicked then
        (s.setChange id { c with stage := .ended }, [.changeEnded id outcome])
      else (s.setChange id { c with stage := .finishing outcome false }, [])

/-- The task of a change tells how the preparation has ended, unless it was cancelled. -/
def reportChange (s : Scheduler) (id : Nat) : Next :=
  s.changes[id]?.bind (fun c =>
    match c.stage with
    | .finishing outcome false =>
        let s := match outcome with
          | .ready => s.say (activeText c.plan.name c.state)
          | .failed chain => s.say (failedText c.plan.name chain)
          | .cancelled | .panicked => s
        some (s.setChange id { c with stage := .finishing outcome true }, [])
    | _ => none)

/-- The task of a change lets ticks count again and is over. -/
def endChange (s : Scheduler) (id : Nat) : Next :=
  s.changes[id]?.bind (fun c =>
    match c.stage with
    | .finishing outcome true =>
        some ({ s.setChange id { c with stage := .ended } with changing := false },
          [.changeEnded id outcome])
    | _ => none)

/-- The workers have stopped: the run goes for the lock. -/
def join (s : Scheduler) : Next :=
  s.withRun (fun run =>
    if run.stage = .joining ∧ run.primary.stage = .stopped ∧ run.secondary.stage = .stopped then
      some ({ s with run := some { run with stage := .settling s.nextId } }.call .shutdown, [])
    else none)

/-- The run says that it is over. -/
def finishRun (s : Scheduler) : Next :=
  s.withRun (fun run =>
    if run.stage = .closing then some ({ s with run := none }.say "stopped", [.stopped]) else none)

end Cadence.Scheduler
