import Cadence.Adjuster.Policy
import Cadence.Time.Utc

/-!
Which state of the instance counts.

The tracker is told one observation after the other.  A state that differs from
the current one becomes pending and has to be observed for as long as its rule
says; the first change of all is made at once.  A change is attempted before the
tracker moves: if the attempt fails, the current state stays.
-/

namespace Cadence

/-- A state with its plan, and since when it holds: on the clock and by the calendar. -/
structure Standing where
  state : InstanceState
  plan : String
  /-- Nanoseconds of a clock that only goes forward. -/
  since : Nat
  date : Utc
  deriving DecidableEq

/-- A change to make: to this plan, or to no collection at all if it has no name. -/
structure Attempt where
  state : InstanceState
  plan : String
  deriving DecidableEq, Repr

/-- What is asked of whoever changes plans. -/
inductive PlanCall where
  /-- That nothing is collected.  This is never refused. -/
  | pause
  | change (state : InstanceState) (plan : String)
  deriving DecidableEq, Repr

namespace Attempt

def pauses (a : Attempt) : Bool := a.plan.isEmpty

/-- The call that makes the change. -/
def call (a : Attempt) : PlanCall := if a.pauses then .pause else .change a.state a.plan

end Attempt

structure Tracker where
  previous : Option Standing := none
  current : Standing
  pending : Option Standing := none
  /-- Whether no change has been made yet. -/
  first : Bool := true
  /-- Seconds until the next observation of an instance that is offline. -/
  wait : Nat := 1
  /-- What the status board says. -/
  line : String
  deriving DecidableEq

namespace Tracker

def sinceText (s : Standing) : String := s!"{s.state.text} since {s.date.renderPlain}"

def create (policy : Policy) (now : Nat) (date : Utc) : Tracker :=
  let current : Standing :=
    { state := .offline, plan := (policy.rule .offline).plan, since := now, date }
  { current, line := sinceText current }

/-- Gives up the pending state, if there is one. -/
def confirm (t : Tracker) : Tracker :=
  if t.pending.isSome then { t with pending := none, line := sinceText t.current } else t

def standing (policy : Policy) (state : InstanceState) (now : Nat) (date : Utc) : Standing :=
  { state, plan := (policy.rule state).plan, since := now, date }

/-- Makes a state pending and starts over with short waits. -/
def await (t : Tracker) (s : Standing) : Tracker :=
  { t with pending := some s, wait := 1, line := "pending " ++ sinceText s }

/-- Takes an observation in, and says which change to attempt now. -/
def observe (policy : Policy) (t : Tracker) (observed : InstanceState) (now : Nat) (date : Utc) :
    Tracker × Option Attempt :=
  let rule := policy.rule observed
  let attempt : Attempt := { state := observed, plan := rule.plan }
  if observed = t.current.state then (t.confirm, none)
  else
    match t.pending.filter (·.state = observed) with
    | some pending =>
        (t, if rule.after.toNanos ≤ now - pending.since then some attempt else none)
    | none =>
        if t.first ∧ t.current.state = .offline then (t, some attempt)
        else
          (t.await (standing policy observed now date),
            if rule.after.isZero then some attempt else none)

/-- The attempt has succeeded: its state is the current one. -/
def commit (t : Tracker) (a : Attempt) (now : Nat) (date : Utc) : Tracker :=
  let current : Standing := { state := a.state, plan := a.plan, since := now, date }
  { t with
    previous := some t.current
    current := current
    pending := none
    first := false
    line := sinceText current }

/-- The attempt has failed: the state has to be observed anew. -/
def fail (t : Tracker) (a : Attempt) : Tracker :=
  { t with
    pending := none
    line := sinceText t.current ++ s!" (change to {a.state.text} failed)" }

def settle (t : Tracker) (a : Attempt) (succeeded : Bool) (now : Nat) (date : Utc) : Tracker :=
  if succeeded then t.commit a now date else t.fail a

/-- Seconds between observations of an instance that can be reached. -/
def interval : Nat := 1

/-- The seconds to wait after an observation; while offline they double up to half a minute. -/
def nextWait (t : Tracker) : Nat × Tracker :=
  if t.current.state = .offline then (t.wait, { t with wait := min (2 * t.wait) 30 })
  else (interval, t)

end Tracker

end Cadence
