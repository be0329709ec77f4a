import Cadence.Adjuster.Tracker

/-!
The plan adjuster as a machine.

It asks whether the instance is a standby, then whether it refuses writes, hands
the observed state to the tracker, waits for an attempted change to be settled,
and then for the time of the next observation.  Only this last wait can be cut
short by a request to stop.
-/

namespace Cadence

inductive ReadOnlyAnswer where
  | readOnly
  | writable
  | failed
  | timedOut
  deriving DecidableEq, Repr

inductive AdjusterStage where
  | idle
  /-- Asking whether the instance is a passive standby. -/
  | askingStandby
  /-- Asking for the read-only flag. -/
  | askingReadOnly
  /-- About to hand this state to the tracker. -/
  | observed (state : InstanceState)
  /-- Waiting for the outcome of an attempt made upon an observation at `now`. -/
  | attempting (attempt : Attempt) (now : Nat)
  /-- Waiting these seconds for the next observation. -/
  | waiting (seconds : Nat)
  deriving DecidableEq

structure Adjuster where
  policy : Policy
  readOnlyTimeout : Duration := .ofSecs 2
  tracker : Tracker
  stage : AdjusterStage := .idle
  /-- Whether observations go on after this one. -/
  running : Bool := false
  deriving DecidableEq

inductive AdjusterAction where
  /-- Starts to observe, once or again and again. -/
  | observe (repeatedly : Bool)
  | standby (answer : Bool)
  | readOnly (answer : ReadOnlyAnswer)
  /-- Hands the observed state to the tracker. -/
  | take (now : Nat) (date : Utc)
  /-- Hands a state to the tracker that somebody else has observed. -/
  | tell (state : InstanceState) (now : Nat) (date : Utc)
  | settled (succeeded : Bool) (date : Utc)
  /-- The wait is over. -/
  | wake
  | stop
  deriving DecidableEq

namespace Adjuster

def statusKey : String := "plan-adjuster"

def create (policy : Policy) (readOnlyTimeout : Duration) (now : Nat) (date : Utc) : Adjuster :=
  { policy, readOnlyTimeout, tracker := .create policy now date }

def stateOf : ReadOnlyAnswer → InstanceState
  | .readOnly => .readOnly
  | .writable => .active
  | .failed | .timedOut => .offline

/-- After an observation: the wait for the next one, or rest. -/
def rest (a : Adjuster) : Adjuster :=
  if a.running then
    let (seconds, tracker) := a.tracker.nextWait
    { a with tracker, stage := .waiting seconds }
  else { a with stage := .idle }

/-- Takes an observed state in; a change that is due is handed out to be attempted. -/
def check (a : Adjuster) (observed : InstanceState) (now : Nat) (date : Utc) :
    Adjuster × Option Attempt :=
  match a.tracker.observe a.policy observed now date with
  | (tracker, none) => ({ a with tracker }.rest, none)
  | (tracker, some attempt) => ({ a with tracker, stage := .attempting attempt now }, some attempt)

def step (a : Adjuster) : AdjusterAction → Option (Adjuster × Option Attempt)
  | .observe repeatedly =>
      if a.stage = .idle then
        some ({ a with stage := .askingStandby, running := repeatedly }, none)
      else none
  | .standby answer =>
      if a.stage = .askingStandby then
        some ({ a with stage := if answer then .observed .standby else .askingReadOnly }, none)
      else none
  | .readOnly answer =>
      if a.stage = .askingReadOnly then
        some ({ a with stage := .observed (stateOf answer) }, none)
      else none
  | .take now date =>
      match a.stage with
      | .observed state => some (a.check state now date)
      | _ => none
  | .tell state now date =>
      if a.stage = .idle then some ({ a with running := false }.check state now date) else none
  | .settled succeeded date =>
      match a.stage with
      | .attempting attempt now =>
          some ({ a with tracker := a.tracker.settle attempt succeeded now date }.rest, none)
      | _ => none
  | .wake =>
      match a.stage with
      | .waiting _ => some ({ a with stage := .askingStandby }, none)
      | _ => none
  | .stop =>
      match a.stage with
      | .waiting _ => some ({ a with stage := .idle, running := false }, none)
      | _ => none

end Adjuster

end Cadence
