import Cadence.Adjuster.Step
import Cadence.Rehearsal.Clock

/-!
The plan adjuster in a rehearsal.

In front of a scripted instance it observes once or again and again.  A scripted
changer accepts every change or refuses every change of plan; that collection
stops, it always accepts.
-/

namespace Cadence

namespace Adjuster

/-- The nanoseconds on the machine's clock at a time of the rehearsal. -/
def instant (millis : Nat) : Nat := millis * 1000000

/-- What the adjuster waits for, other than the outcome of an attempt. -/
def waits (a : Adjuster) : List Wait :=
  match a.stage with
  | .askingStandby => [.standby]
  | .askingReadOnly => [.readOnly]
  | .waiting _ => [.nap]
  | _ => []

/-- What the adjuster does by itself, as the script of the instance allows. -/
def prompts (now : Nat) (a : Adjuster) : List AdjusterAction :=
  match a.stage with
  | .observed _ => [.take (instant now) (.ofMillis now)]
  | _ => []

def readOnlyAnswer : String → ReadOnlyAnswer
  | "ro" => .readOnly
  | "rw" => .writable
  | _ => .failed

def askStandby (cast : Cast) (now : Nat) : Begun AdjusterAction :=
  let (cue, rest) := cast.standby.nextOr "no"
  { cast := { cast with standby := rest }
    asked := some .standby
    timer := match cue.answer with
      | some text => { due := some (now + cue.delay), actions := [.standby (text = "yes")] }
      | none => { due := none, actions := [] } }

def askReadOnly (a : Adjuster) (cast : Cast) (now : Nat) : Begun AdjusterAction :=
  let limit := a.readOnlyTimeout.toMillisCeil
  let (cue, rest) := cast.readOnly.nextOr "rw"
  { cast := { cast with readOnly := rest }
    asked := some .readOnly
    timer := match cue.within limit with
      | some (delay, text) =>
          { due := some (now + delay), actions := [.readOnly (readOnlyAnswer text)] }
      | none => { due := some (now + limit), actions := [.readOnly .timedOut] } }

def begins (a : Adjuster) (cast : Cast) (now : Nat) : Wait → Begun AdjusterAction
  | .standby => askStandby cast now
  | .readOnly => a.askReadOnly cast now
  | _ =>
      match a.stage with
      | .waiting seconds =>
          { cast, timer := { due := some (now + seconds * 1000), actions := [.wake] } }
      | _ => { cast, timer := { due := none, actions := [] } }

end Adjuster

/-- An adjuster with a scripted changer. -/
structure AdjusterTrial where
  adjuster : Adjuster

namespace AdjusterTrial

def step (t : AdjusterTrial) (action : AdjusterAction) : Option (AdjusterTrial × List Attempt) :=
  (t.adjuster.step action).map (fun (adjuster, attempt) => ({ adjuster }, attempt.toList))

def prompts (cast : Cast) (now : Nat) (t : AdjusterTrial) : List AdjusterAction :=
  t.adjuster.prompts now ++
    match t.adjuster.stage with
    | .attempting attempt _ =>
        [.settled (attempt.call = .pause || !cast.refusesChanges) (.ofMillis now)]
    | _ => []

def scene : Scene AdjusterTrial AdjusterAction Attempt where
  step := step
  prompts := prompts
  waits t := t.adjuster.waits
  begins t := t.adjuster.begins
  collecting _ _ := 0

end AdjusterTrial

inductive AdjusterRequest where
  /-- A state that somebody observed at this time, in milliseconds. -/
  | tell (state : InstanceState) (millis : Nat)
  /-- Only observes. -/
  | observe
  /-- Observes once and acts upon it. -/
  | check
  /-- Observes again and again for this time. -/
  | run (millis : Nat)
  | sleep (millis : Nat)
  /-- Makes changes of plan fail from now on, or succeed again. -/
  | fail (refusesChanges : Bool)
  | rescript (change : Cast → Cast)

inductive AdjusterAnswer where
  | done
  | observed (state : InstanceState)
  | stopped
  | stuck

abbrev AdjusterRehearsal := Rehearsal AdjusterTrial AdjusterAction Attempt

namespace AdjusterRehearsal

open AdjusterTrial

def create (policy : Policy) (readOnlyTimeout : Duration) (cast : Cast) : AdjusterRehearsal where
  machine := { adjuster := .create policy readOnlyTimeout (Adjuster.instant 0) .epoch }
  cast := cast

/-- Breaks off whatever the adjuster is doing. -/
def abandon (r : AdjusterRehearsal) : AdjusterRehearsal :=
  r.change scene (fun t => { adjuster := { t.adjuster with stage := .idle } })

def isIdle (r : AdjusterRehearsal) : Bool := r.machine.adjuster.stage = .idle

def isWaiting (r : AdjusterRehearsal) : Bool :=
  match r.machine.adjuster.stage with
  | .waiting _ => true
  | _ => false

/-- Waits until the adjuster has nothing to do, and breaks it off if that takes too long. -/
def waitForIdle (r : AdjusterRehearsal) : AdjusterRehearsal × AdjusterAnswer :=
  let r := r.await scene isIdle
  if isIdle r then (r, .done) else (abandon r, .stuck)

def observedState? (r : AdjusterRehearsal) : Option InstanceState :=
  match r.machine.adjuster.stage with
  | .observed state => some state
  | _ => none

def request (r : AdjusterRehearsal) : AdjusterRequest → AdjusterRehearsal × AdjusterAnswer
  | .tell state millis =>
      waitForIdle (r.perform scene [.tell state (Adjuster.instant millis) (.ofMillis r.now)])
  | .observe =>
      let r := (r.perform scene [.observe false]).await scene (fun r => (observedState? r).isSome)
      (abandon r, (observedState? r).elim .stuck .observed)
  | .check => waitForIdle (r.perform scene [.observe false])
  | .run millis =>
      let r := ((r.perform scene [.observe true]).pass scene millis).await scene isWaiting
      if isWaiting r then (r.perform scene [.stop], .stopped) else (abandon r, .stuck)
  | .sleep millis => (r.pass scene millis, .done)
  | .fail refusesChanges => ({ r with cast := { r.cast with refusesChanges } }, .done)
  | .rescript change => ({ r with cast := change r.cast }, .done)

end AdjusterRehearsal

end Cadence
