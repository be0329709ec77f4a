import Cadence.Engine.Basic

/-!
The steps of a preparation.

A preparation waits until the instance answers, makes a collector for each
domain that has none, lets every collector prepare, and then swaps the live
state.  It can be abandoned without a trace up to the point where it asks for
the live state to itself; from there on it goes live.  Collectors commit only
inside the swap.
-/

namespace Cadence

/-- How an attempt to reach the instance ended. -/
inductive PingResult where
  | answered
  | failed
  | timedOut
  deriving DecidableEq, Repr

/-- How the call of a factory ended. -/
inductive Creation where
  | created
  | failed (chain : ErrorChain)
  | panicked
  deriving DecidableEq, Repr

/-- How a collector's preparation ended. -/
inductive CollectorPrepared where
  | prepared (cleanup : Bool)
  | failed (chain : ErrorChain)
  | panicked
  deriving DecidableEq, Repr

/-- How the commits of a swap went. -/
inductive Commits where
  | all
  /-- Only these domains had committed when one of the others panicked. -/
  | only (domains : List String)
  deriving DecidableEq, Repr

namespace Engine

abbrev Next := Option (Engine × List EngineEvent)

/-- What `step` makes of the preparation numbered `id`. -/
def withPreparation (e : Engine) (id : Nat) (step : Preparation → Next) : Next :=
  e.preparations[id]?.bind step

def setPreparation (e : Engine) (id : Nat) (p : Preparation) : Engine :=
  { e with preparations := e.preparations.insert id p }

/-- The preparation is over. -/
def endPreparation (e : Engine) (id : Nat) (outcome : PrepareOutcome) :
    Engine × List EngineEvent :=
  ({ e with preparations := e.preparations.erase id }, [.prepared id outcome])

def beginPrepare (e : Engine) (plan : Plan) (cancelled : Bool) : Engine :=
  { (e.say s!"preparing plan {plan.name}").setPreparation e.nextId { plan, cancelled } with
    nextId := e.nextId + 1 }

def cancelPreparation (e : Engine) (id : Nat) : Next :=
  e.withPreparation id (fun p => some (e.setPreparation id { p with cancelled := true }, []))

/-- The answer to a ping, or the end of the time it has. -/
def pinged (e : Engine) (id : Nat) (result : PingResult) : Next :=
  e.withPreparation id (fun p =>
    match p.stage, result with
    | .connecting _, .answered =>
        some ((e.setPreparation id { p with stage := .copying }).enqueue (.copy id), [])
    | .connecting attempt, _ =>
        some ((e.say s!"connecting (attempt {attempt})").setPreparation id
          { p with stage := .retrying attempt }, [])
    | _, _ => none)

/-- The wait before the next attempt is over. -/
def retry (e : Engine) (id : Nat) : Next :=
  e.withPreparation id (fun p =>
    match p.stage with
    | .retrying attempt =>
        some (e.setPreparation id { p with stage := .connecting (attempt + 1) }, [])
    | _ => none)

/-- A preparation notices that it is cancelled, where it waits for something else as well. -/
def noticeCancel (e : Engine) (id : Nat) : Next :=
  e.withPreparation id (fun p =>
    match p.cancelled, p.stage with
    | true, .connecting _ | true, .retrying _ | true, .preparing .. =>
        some (e.endPreparation id .cancelled)
    | _, _ => none)

/-- Looks at the live collectors. -/
def copyLive (e : Engine) (id : Nat) : Next :=
  e.withPreparation id (fun p =>
    if p.stage = .copying ∧ e.admits (.copy id) then
      some ((e.dequeue (.copy id)).setPreparation id
        { p with known := e.live.collectors, stage := .visiting p.plan.domains }, [])
    else none)

/-- Gives a collector the plan to stage. -/
def stageSelection (e : Engine) (collector : Nat) (plan : Plan) (domain : String) : Engine :=
  let selection : Selection := e.selections[collector]?.getD {}
  { e with selections := e.selections.insert collector (selection.stage plan domain) }

/-- Asks a collector to prepare, unless the preparation notices first that it is cancelled. -/
def askCollector (e : Engine) (id : Nat) (p : Preparation) (domain : String) (collector : Nat)
    (rest : List String) (noticed : Bool) : Next :=
  if noticed then
    if p.cancelled then some (e.endPreparation id .cancelled) else none
  else
    some ((e.stageSelection collector p.plan domain).setPreparation id
      { p with stage := .preparing domain collector rest },
      [.preparing domain p.plan.name collector])

/-- Turns to the next domain: takes its live collector or has one made. -/
def visit (e : Engine) (id : Nat) (creation : Creation) (noticed : Bool) : Next :=
  e.withPreparation id (fun p =>
    match p.stage with
    | .visiting (domain :: rest) =>
        match p.known[domain]? with
        | some collector => e.askCollector id p domain collector rest noticed
        | none =>
            let logged : Next → Next := Option.map (fun (e, events) => (e, .creating domain :: events))
            match creation with
            | .failed chain =>
                logged (some (e.endPreparation id
                  (.failed (.within s!"creating {domain} collector" chain))))
            | .panicked => logged (some (e.endPreparation id .panicked))
            | .created =>
                logged ({ e with nextCollector := e.nextCollector + 1 }.askCollector id p domain
                  e.nextCollector rest noticed)
    | _ => none)

/-- The collector that was asked has answered. -/
def collectorPrepared (e : Engine) (id : Nat) (result : CollectorPrepared) : Next :=
  e.withPreparation id (fun p =>
    match p.stage with
    | .preparing domain collector rest =>
        match result with
        | .failed chain =>
            some (e.endPreparation id (.failed (.within s!"preparing {domain} collector" chain)))
        | .panicked => some (e.endPreparation id .panicked)
        | .prepared cleanup =>
            some (e.setPreparation id { p with
              collectors := p.collectors.insert domain collector
              cleanups := p.cleanups ++ (if cleanup then [⟨domain, p.plan.name⟩] else [])
              stage := .visiting rest }, [])
    | _ => none)

/-- After the last domain: the end, if cancelled, or else the queue for the swap. -/
def conclude (e : Engine) (id : Nat) : Next :=
  e.withPreparation id (fun p =>
    match p.stage with
    | .visiting [] =>
        if p.cancelled then some (e.endPreparation id .cancelled)
        else
          some ((e.setPreparation id { p with stage := .swapping }).enqueue (.swap id),
            [.before id])
    | _ => none)

/-- The collectors of these domains commit what they have staged. -/
def commitAll (e : Engine) (collectors : Table String Nat) : Engine :=
  { e with selections := collectors.values.foldl (fun s c => s.modify c Selection.commit) e.selections }

def commitEvents (collectors : Table String Nat) : List EngineEvent :=
  collectors.toList.map (fun (domain, c) => .committing domain c)

/-- Replaces the live state, in which nobody is at work. -/
def swap (e : Engine) (id : Nat) (commits : Commits) : Next :=
  e.withPreparation id (fun p =>
    if p.stage = .swapping ∧ e.admits (.swap id) then
      match commits with
      | .all =>
          some ({ ((e.dequeue (.swap id)).commitAll p.collectors).setPreparation id
            { p with stage := .swapped e.live.cleanups } with
            live := .ofPlan p.plan p.collectors p.cleanups }, commitEvents p.collectors)
      | .only domains =>
          let done := p.collectors.filter (fun d _ => d ∈ domains)
          let (e, events) := ((e.dequeue (.swap id)).commitAll done).endPreparation id .panicked
          some (e, commitEvents done ++ events)
    else none)

/-- Runs what the replaced plan left behind; `finished` cleanups do not panic, if it is given. -/
def cleanUp (e : Engine) (id : Nat) (finished : Option Nat) : Next :=
  e.withPreparation id (fun p =>
    match p.stage with
    | .swapped cleanups =>
        match finished with
        | none =>
            some ((e.setPreparation id { p with stage := .pruning }).enqueue (.prune id),
              .after id :: cleanups.map .cleaning)
        | some n =>
            if n < cleanups.length then
              let (e, events) := e.endPreparation id .panicked
              some (e, .after id :: (cleanups.take n).map .cleaning ++ events)
            else none
    | _ => none)

/-- Forgets the errors of domains that are not live any more. -/
def prune (e : Engine) (id : Nat) : Next :=
  e.withPreparation id (fun p =>
    if p.stage = .pruning ∧ e.admits (.prune id) then
      let e := e.dequeue (.prune id)
      let errors := e.errors.filter (fun domain _ => e.live.collectors.contains domain)
      some (({ e with errors }.say s!"ready: plan {p.plan.name}").endPreparation id .ready)
    else none)

/-- Whoever waited for a preparation gives it up, where it waits itself. -/
def dropPreparation (e : Engine) (id : Nat) : Next :=
  e.withPreparation id (fun p =>
    if p.stage.waits then
      let e := ((e.dequeue (.copy id)).dequeue (.swap id)).dequeue (.prune id)
      some ({ e with preparations := e.preparations.erase id }, [])
    else none)

end Engine

end Cadence
