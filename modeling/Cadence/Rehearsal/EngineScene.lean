import Cadence.Engine.Step
import Cadence.Plan.Store
import Cadence.Rehearsal.Clock

/-!
The engine in a rehearsal.

Somebody asks it to prepare plans and to collect levels, and waits for the
outcome or leaves it for later.
-/

namespace Cadence

namespace Engine

/-- What a preparation can do at once. -/
def preparationPrompts (cast : Cast) (id : Nat) (p : Preparation) : List EngineAction :=
  match p.stage with
  | .connecting _ | .retrying _ | .preparing .. => [.noticeCancel id]
  | .copying => [.copyLive id]
  | .visiting [] => [.conclude id]
  | .visiting (domain :: _) => [.visit id (cast.creation domain) p.cancelled]
  | .swapping => [.swap id .all]
  | .swapped _ => [.cleanUp id none]
  | .pruning => [.prune id]

def roundPrompts (now id : Nat) (r : EngineRound) : List EngineAction :=
  match r.stage with
  | .queued => [.enter id (.ofMillis now)]
  | .collecting _ _ tasks => tasks.keys.map (.startTask id) ++ [.close id (.ofMillis now)]

/-- A preparation that does not wait goes on before anybody else has a turn. -/
def prompts (cast : Cast) (now : Nat) (e : Engine) : List EngineAction :=
  let (waiting, going) := e.preparations.toList.partition (fun (_, p) => p.stage.waits)
  (going ++ waiting).flatMap (fun (id, p) => preparationPrompts cast id p) ++
    e.rounds.toList.flatMap (fun (id, r) => roundPrompts now id r)

def preparationWait (id : Nat) (p : Preparation) : Option Wait :=
  if p.cancelled then none
  else
    match p.stage with
    | .connecting _ => some (.ping id)
    | .retrying _ => some (.retry id)
    | .preparing .. => some (.collector id)
    | _ => none

def roundWaits (id : Nat) (r : EngineRound) : List Wait :=
  match r.stage with
  | .queued => []
  | .collecting _ _ tasks => (tasks.filter (fun _ t => t.isCollecting)).keys.map (.task id)

def waits (e : Engine) : List Wait :=
  e.preparations.toList.filterMap (fun (id, p) => preparationWait id p) ++
    e.rounds.toList.flatMap (fun (id, r) => roundWaits id r)

def never : Timer EngineAction := { due := none, actions := [] }

def askPing (e : Engine) (cast : Cast) (now id : Nat) : Begun EngineAction :=
  let limit := e.settings.connectTimeout.toMillisCeil
  let (cue, rest) := cast.ping.nextOr "ok"
  { cast := { cast with ping := rest }
    asked := some .ping
    timer := match cue.within limit with
      | some (delay, text) =>
          { due := some (now + delay),
            actions := [.pinged id (if text = "ok" then .answered else .failed)] }
      | none => { due := some (now + limit), actions := [.pinged id .timedOut] } }

def prepareTimer (now id : Nat) (script : CollectorScript) : Timer EngineAction :=
  let done : EngineAction := .collectorPrepared id (.prepared script.cleanup)
  let due := some (now + script.prepareMillis)
  match script.prepare with
  | .succeed => { due, actions := [done] }
  | .fail => { due, actions := [.collectorPrepared id (.failed script.prepareErrors)] }
  | .hang => never
  | .cancel => { due, actions := [.cancel id, done] }

def askCollectorToPrepare (cast : Cast) (now id : Nat) (domain : String) (collector : Nat) :
    Begun EngineAction :=
  let cast := cast.meet domain collector
  let timer := if cast.isPlain collector
    then { due := some now, actions := [.collectorPrepared id (.prepared false)] }
    else prepareTimer now id (cast.collector domain)
  { cast, timer }

def taskTimer (cast : Cast) (now id : Nat) (domain level : String) (t : RoundTask) :
    Timer EngineAction :=
  let script := cast.collector domain
  let result := if cast.isPlain t.collector then some CollectorScript.plainResult
    else script.result domain level t.selected
  let millis := if cast.isPlain t.collector then 0 else script.collectMillis
  match result with
  | some result => { due := some (now + millis), actions := [.finishTask id domain result] }
  | none => never

def begins (e : Engine) (cast : Cast) (now : Nat) : Wait → Begun EngineAction
  | .ping id => e.askPing cast now id
  | .retry id =>
      { cast, timer := {
          due := some (now + e.settings.connectRetry.toMillisCeil), actions := [.retry id] } }
  | .collector id =>
      match e.preparations[id]? with
      | some { stage := .preparing domain collector _, .. } =>
          askCollectorToPrepare cast now id domain collector
      | _ => { cast, timer := never }
  | .task id domain =>
      match e.rounds[id]? with
      | some { level, stage := .collecting _ _ tasks, .. } =>
          { cast, timer := (tasks[domain]?).elim never (taskTimer cast now id domain level) }
      | _ => { cast, timer := never }
  | _ => { cast, timer := never }

def roundCollecting (cast : Cast) (r : EngineRound) : Nat :=
  match r.stage with
  | .queued => 0
  | .collecting _ _ tasks =>
      (tasks.values.filter (fun t => t.isCollecting && !cast.isPlain t.collector)).length

def collecting (cast : Cast) (e : Engine) : Nat :=
  e.rounds.values.foldl (fun n r => n + roundCollecting cast r) 0

/-- Whether somebody of the cast notices an event: the factory of a domain that can be collected,
or a collector that is not plain. -/
def isNoticed (cast : Cast) : EngineEvent → Bool
  | .creating domain => domain ∈ cast.domains
  | .preparing _ _ collector | .committing _ collector => !cast.isPlain collector
  | .cleaning _ => true
  | _ => false

def scene : Scene Engine EngineAction EngineEvent where
  step := Engine.step
  prompts := prompts
  waits := waits
  begins := begins
  collecting := collecting

end Engine

/-- What an engine is asked for in a rehearsal. -/
inductive EngineRequest where
  | prepare (plan : Except PlanError Plan) (cancelAt : Option Nat)
  | collect (level : String) (timeout : Option Nat)
  | sleep (millis : Nat)
  /-- Changes what the cast answers from now on. -/
  | rescript (change : Cast → Cast)

inductive EngineAnswer where
  | done
  | prepared
  | failed (chain : ErrorChain)
  | refused (reason : PlanError)
  | collected (batch : Batch)
  /-- The round was given up when its time was over. -/
  | dropped
  /-- Whoever waited gave up. -/
  | stuck
  | started
  | noTask

/-- What has been begun and may have come to an end. -/
inductive EngineJob where
  | preparation (id : Nat)
  | round (id : Nat)
  | sleep (wakeAt : Nat)
  | answered (answer : EngineAnswer)

structure EngineRehearsal where
  stage : Rehearsal Engine EngineAction EngineEvent
  /-- How those preparations and rounds ended that have. -/
  ends : Table Nat EngineAnswer := ∅
  /-- What is left for later. -/
  background : Table String EngineJob := ∅

namespace EngineRehearsal

abbrev Stage := Rehearsal Engine EngineAction EngineEvent

def create (settings : EngineSettings) (cast : Cast) : EngineRehearsal where
  stage := { machine := .create settings ∅, cast }

def answerOf : PrepareOutcome → EngineAnswer
  | .ready | .cancelled | .panicked => .prepared
  | .failed chain => .failed chain

/-- The end that an event is for somebody who waits. -/
def endOf? : EngineEvent → Option (Nat × EngineAnswer)
  | .prepared id outcome => some (id, answerOf outcome)
  | .collected id batch => some (id, .collected batch)
  | _ => none

/-- Keeps what has ended since the page was turned. -/
def file (r : EngineRehearsal) : EngineRehearsal :=
  let ended := r.stage.events.filterMap (fun (_, event) => endOf? event)
  { r with ends := ended.foldl (fun ends (id, answer) => ends.insert id answer) r.ends }

/-- Begins what is asked for. -/
def start (r : EngineRehearsal) : EngineRequest → EngineRehearsal × EngineJob
  | .prepare (.error reason) _ => (r, .answered (.refused reason))
  | .prepare (.ok plan) cancelAt =>
      let id := r.stage.machine.nextId
      let stage := match cancelAt with
        | some millis => r.stage.appoint millis [.cancel id]
        | none => r.stage
      ({ r with stage := stage.perform Engine.scene [.beginPrepare plan false] }, .preparation id)
  | .collect level timeout =>
      let id := r.stage.machine.nextId
      let stage := match timeout with
        | some millis => r.stage.appoint millis [.dropRound id]
        | none => r.stage
      ({ r with stage := stage.perform Engine.scene [.beginCollect level] }, .round id)
  | .sleep millis =>
      ({ r with stage := r.stage.appoint millis [] }, .sleep (r.stage.now + millis))
  | .rescript change =>
      ({ r with stage := { r.stage with cast := change r.stage.cast } }, .answered .done)

/-- How what has this number ended, earlier or since the page was turned. -/
def endNumbered? (ends : Table Nat EngineAnswer) (stage : Stage) (id : Nat) :
    Option EngineAnswer :=
  (ends[id]?).or (stage.events.findSome? (fun (_, event) =>
    ((endOf? event).filter (·.1 = id)).map (·.2)))

/-- Whether a job has ended, and how. -/
def ended? (ends : Table Nat EngineAnswer) (stage : Stage) : EngineJob → Option EngineAnswer
  | .answered answer => some answer
  | .sleep wakeAt => if wakeAt ≤ stage.now then some .done else none
  | .preparation id => endNumbered? ends stage id
  | .round id =>
      (endNumbered? ends stage id).or
        (if stage.machine.rounds.contains id then none else some .dropped)

/-- What is done with a job that nobody waits for any more. -/
def abandon : EngineJob → List EngineAction
  | .preparation id => [.dropPreparation id]
  | .round id => [.dropRound id]
  | .sleep _ | .answered _ => []

/-- Waits for a job; one that is started in front is given up with the wait for it. -/
def waitFor (r : EngineRehearsal) (job : EngineJob) (inFront : Bool) :
    EngineRehearsal × EngineAnswer :=
  let stage := r.stage.await Engine.scene (fun stage => (ended? r.ends stage job).isSome)
  match ended? r.ends stage job with
  | some answer => ({ r with stage }, answer)
  | none =>
      ({ r with stage := if inFront then stage.perform Engine.scene (abandon job) else stage },
        .stuck)

/-- Does what is asked for and waits for its end. -/
def request (r : EngineRehearsal) (what : EngineRequest) : EngineRehearsal × EngineAnswer :=
  match what with
  | .sleep millis => ({ r with stage := r.stage.pass Engine.scene millis }, .done)
  | _ =>
      let (r, job) := r.start what
      r.waitFor job true

/-- Does what is asked for and leaves its end for later, under a name. -/
def leave (r : EngineRehearsal) (name : String) (what : EngineRequest) :
    EngineRehearsal × EngineAnswer :=
  let (r, job) := r.start what
  ({ r with background := r.background.insert name job }, .started)

/-- Waits for the end of what was left under a name. -/
def join (r : EngineRehearsal) (name : String) : EngineRehearsal × EngineAnswer :=
  match r.background[name]? with
  | none => (r, .noTask)
  | some job => { r with background := r.background.erase name }.waitFor job false

/-- Lets everybody do what they can, and looks back on what has happened. -/
def settle (r : EngineRehearsal) : EngineRehearsal :=
  { r with stage := r.stage.settle Engine.scene }.file

def turnPage (r : EngineRehearsal) : EngineRehearsal :=
  { r with stage := r.stage.turnPage Engine.scene }

end EngineRehearsal

end Cadence
