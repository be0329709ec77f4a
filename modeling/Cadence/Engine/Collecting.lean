import Cadence.Engine.Preparing

/-!
The steps of a round.

A round waits for the live state and then has one task for each domain of its
level.  The tasks share as many permits as domains may be collected at once, and
each has one while its collector is at work.  When all have ended, the round
records the errors and hands over its batch.  A level without collectors yields
an empty batch at once.
-/

namespace Cadence

namespace CollectResult

/-- The text for a panic: its message, and where it happened if that is known. -/
def panicText (message : String) (trace : Option String) : String :=
  "PANIC: " ++ message ++ "\n" ++ trace.getD "(no backtrace captured)"

end CollectResult

/-- What has come in of the domains of a round. -/
structure Gathered where
  values : Table String (List MetricValue) := ∅
  errors : Table String String := ∅
  deriving DecidableEq

namespace Gathered

/-- Takes in how a task has ended.  One that is gone does not even tell its domain. -/
def join (g : Gathered) : String × CollectResult → Gathered
  | (domain, .values values) => { g with values := g.values.insert domain values }
  | (domain, .failed chain) => { g with errors := g.errors.insert domain chain.joined }
  | (domain, .panicked message trace) =>
      { g with errors := g.errors.insert domain (CollectResult.panicText message trace) }
  | (_, .died) => g

/-- Notes that a domain has failed of which nothing has come in. -/
def fillIn (g : Gathered) (domain : String) : Gathered :=
  if g.values.contains domain || g.errors.contains domain then g
  else { g with errors := g.errors.insert domain "collector task failed" }

/-- What comes in of these domains, as their tasks are joined in this order. -/
def collect (domains : List String) (joined : List (String × CollectResult)) : Gathered :=
  domains.foldl fillIn (joined.foldl join {})

end Gathered

namespace RoundTask

def result? (t : RoundTask) : Option CollectResult :=
  match t.stage with
  | .finished r => some r
  | _ => none

def isCollecting (t : RoundTask) : Bool := t.stage = .collecting

end RoundTask

namespace Engine

def withRound (e : Engine) (id : Nat) (step : EngineRound → Next) : Next :=
  e.rounds[id]?.bind step

def setRound (e : Engine) (id : Nat) (r : EngineRound) : Engine :=
  { e with rounds := e.rounds.insert id r }

def dropRound (e : Engine) (id : Nat) : Engine :=
  { e.dequeue (.round id) with rounds := e.rounds.erase id }

def beginCollect (e : Engine) (level : String) : Engine :=
  { (e.setRound e.nextId { level }).enqueue (.round e.nextId) with nextId := e.nextId + 1 }

/-- What of the live plan a batch is from. -/
def livePlanName (e : Engine) : String := (e.live.plan.map (·.name)).getD ""

def emptyBatch (e : Engine) (level : String) (now : Utc) : Batch :=
  .empty e.settings.monitorId e.livePlanName level now

/-- Gets at the live state; without collectors for its level the round is over. -/
def enter (e : Engine) (id : Nat) (now : Utc) : Next :=
  e.withRound id (fun r =>
    if r.stage = .queued ∧ e.admits (.round id) then
      let collectors : Table String Nat := e.live.levels[r.level]?.getD ∅
      if collectors.isEmpty then
        some (e.dropRound id, [.collected id (e.emptyBatch r.level now)])
      else
        let tasks := collectors.map (fun _ collector => ({ collector } : RoundTask))
        some ((e.dequeue (.round id)).setRound id
          { r with
            stage := .collecting e.livePlanName now tasks
            permits := e.settings.concurrency }, [])
    else none)

/-- Changes the task of a domain in an open round and the round's free permits, if `change`
applies to them. -/
def withTask (e : Engine) (id : Nat) (domain : String)
    (change : EngineRound → RoundTask → Option (RoundTask × Nat)) : Next :=
  e.withRound id (fun r =>
    match r.stage with
    | .queued => none
    | .collecting plan began tasks => do
        let task ← tasks[domain]?
        let changed ← change r task
        return (e.setRound id { r with
          stage := .collecting plan began (tasks.insert domain changed.1)
          permits := changed.2 }, []))

/-- Starts the task of a domain, which takes a permit for it. -/
def startTask (e : Engine) (id : Nat) (domain : String) : Next :=
  e.withTask id domain (fun r task =>
    if task.stage = .waiting ∧ 0 < r.permits then
      some ({ task with
        stage := .collecting
        selected := e.selections[task.collector]?.bind (·.get? r.level) }, r.permits - 1)
    else none)

/-- A collector is done, and its task gives the permit back. -/
def finishTask (e : Engine) (id : Nat) (domain : String) (result : CollectResult) : Next :=
  e.withTask id domain (fun r task =>
    if task.stage = .collecting ∧ result ≠ .died then
      some ({ task with stage := .finished result }, r.permits + 1)
    else none)

/-- A task may be lost, whether it has started or not; the permit goes back if it had one. -/
def loseTask (e : Engine) (id : Nat) (domain : String) : Next :=
  e.withTask id domain (fun r task =>
    if task.result?.isNone then
      some ({ task with stage := .finished .died },
        if task.isCollecting then r.permits + 1 else r.permits)
    else none)

def clearError (e : Engine) (domain : String) : Engine :=
  if e.errors.contains domain then
    { e with errors := e.errors.erase domain, board := e.board.remove (errorKey domain) }
  else e

def setError (e : Engine) (domain error : String) : Engine :=
  { e with
    errors := e.errors.insert domain error
    board := e.board.set (errorKey domain) error }

/-- Clears the errors of the domains with values and sets those of the others. -/
def record (e : Engine) (values : Table String (List MetricValue)) (errors : Table String String) :
    Engine :=
  errors.toList.foldl (fun e (domain, error) => e.setError domain error)
    (values.keys.foldl clearError e)

/-- How the tasks of a round have ended that have. -/
def results (tasks : Table String RoundTask) : Table String CollectResult :=
  tasks.filterMap (fun _ t => t.result?)

/-- The batch of a round of which every task has ended.  In which order the tasks are joined does
not matter. -/
def batchOf (e : Engine) (level plan : String) (began ended : Utc) (tasks : Table String RoundTask) :
    Batch :=
  let gathered := Gathered.collect tasks.keys (results tasks).toList
  { monitorId := e.settings.monitorId
    plan := plan
    level := level
    state := .active
    began := began
    ended := ended
    values := gathered.values
    errors := gathered.errors }

/-- Ends a round once every task has ended. -/
def close (e : Engine) (id : Nat) (now : Utc) : Next :=
  e.withRound id (fun r =>
    match r.stage with
    | .queued => none
    | .collecting plan began tasks =>
        if tasks.values.all (fun t => t.result?.isSome) then
          let batch := e.batchOf r.level plan began now tasks
          some ((e.dropRound id).record batch.values batch.errors, [.collected id batch])
        else none)

end Engine

end Cadence
