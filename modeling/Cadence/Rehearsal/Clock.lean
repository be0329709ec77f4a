import Cadence.Rehearsal.Script

/-!
The clock of a rehearsal.

A machine does what it can do at once, one step after the other.  When nothing
is left to do, the clock jumps to the time at which the next wait ends.  No two
steps happen together, and no time passes during one.
-/

namespace Cadence

/-- What takes its time. -/
inductive Wait where
  | ping (preparation : Nat)
  | retry (preparation : Nat)
  | collector (preparation : Nat)
  | task (round : Nat) (domain : String)
  | tick
  | sink (worker : WorkerName)
  | standby
  | readOnly
  | nap
  deriving DecidableEq, Repr

/-- When a wait ends, if it does, and what happens then. -/
structure Timer (α : Type) where
  due : Option Nat
  actions : List α
  /-- Milliseconds after which it strikes again; zero if it strikes once. -/
  period : Nat := 0

/-- How a wait begins: with a question, maybe, and a timer. -/
structure Begun (α : Type) where
  cast : Cast
  asked : Option Question := none
  timer : Timer α

/-- A machine, and what a rehearsal has to know about it. -/
structure Scene (σ α ε : Type) where
  step : σ → α → Option (σ × List ε)
  /-- What might be done at once, in the order in which it is tried. -/
  prompts : Cast → Nat → σ → List α
  waits : σ → List Wait
  begins : σ → Cast → Nat → Wait → Begun α
  /-- How many collectors are at work; plain ones do not count. -/
  collecting : Cast → σ → Nat

structure Rehearsal (σ α ε : Type) where
  machine : σ
  cast : Cast := {}
  /-- Milliseconds since the start. -/
  now : Nat := 0
  timers : List (Wait × Timer α) := []
  /-- What is done from outside at these times. -/
  appointments : List (Nat × List α) := []
  /-- What has happened and when, the latest first. -/
  events : List (Nat × ε) := []
  /-- What has been asked and when, the latest first. -/
  asked : List (Nat × Question) := []
  /-- The greatest number of collectors at work at once. -/
  peak : Nat := 0

namespace Timer

/-- The timer after it has struck; what it has missed by more than a moment it leaves out. -/
def again {α : Type} (t : Timer α) (now : Nat) : Option (Timer α) :=
  match t.period, t.due with
  | 0, _ | _, none => none
  | period, some due =>
      if now ≤ due + 5 then some { t with due := some (due + period) }
      else some { t with due := some (now + period - (now - due) % period) }

end Timer

namespace Rehearsal

variable {σ α ε : Type}

def begin (scene : Scene σ α ε) (r : Rehearsal σ α ε) (w : Wait) : Rehearsal σ α ε :=
  let b := scene.begins r.machine r.cast r.now w
  { r with
    cast := b.cast
    timers := r.timers ++ [(w, b.timer)]
    asked := match b.asked with
      | some question => (r.now, question) :: r.asked
      | none => r.asked }

/-- Forgets the waits that are over, begins those that are new and counts who is at work. -/
def refresh (scene : Scene σ α ε) (r : Rehearsal σ α ε) : Rehearsal σ α ε :=
  let waits := scene.waits r.machine
  let kept := r.timers.filter (fun (w, _) => w ∈ waits)
  let fresh := waits.filter (fun w => !kept.any (fun (w', _) => w' = w))
  fresh.foldl (begin scene)
    { r with timers := kept, peak := max r.peak (scene.collecting r.cast r.machine) }

/-- Takes a step of the machine, if it is possible. -/
def act (scene : Scene σ α ε) (r : Rehearsal σ α ε) (action : α) : Option (Rehearsal σ α ε) :=
  (scene.step r.machine action).map (fun (machine, events) =>
    { r with machine, events := (events.map (r.now, ·)).reverse ++ r.events })

/-- Takes those of some steps that are possible. -/
def perform (scene : Scene σ α ε) (r : Rehearsal σ α ε) (actions : List α) : Rehearsal σ α ε :=
  refresh scene (actions.foldl (fun r action => (act scene r action).getD r) r)

/-- The wait that ends first, and when. -/
def earliest : List (Wait × Timer α) → Option (Nat × Wait × Timer α)
  | [] => none
  | (w, t) :: rest =>
      match t.due, earliest rest with
      | none, best => best
      | some due, none => some (due, w, t)
      | some due, some best => if best.1 < due then some best else some (due, w, t)

/-- The time of the next appointment. -/
def nextAppointment (r : Rehearsal σ α ε) : Option Nat := (r.appointments.map (·.1)).min?

/-- The time of whatever comes next by itself. -/
def nextDue (r : Rehearsal σ α ε) : Option Nat :=
  (((earliest r.timers).map (·.1)).toList ++ r.nextAppointment.toList).min?

/-- What has become due. -/
def strike (scene : Scene σ α ε) (r : Rehearsal σ α ε) : Option (Rehearsal σ α ε) :=
  match (earliest r.timers).filter (·.1 ≤ r.now) with
  | some (_, w, t) =>
      let timers := r.timers.filterMap (fun (w', t') =>
        if w' = w then (t'.again r.now).map (w', ·) else some (w', t'))
      some (perform scene { r with timers } t.actions)
  | none =>
      match r.nextAppointment.filter (· ≤ r.now) with
      | some due =>
          let (held, kept) := r.appointments.partition (·.1 = due)
          some (perform scene { r with appointments := kept } (held.flatMap (·.2)))
      | none => none

/-- The first of the prompts that can be followed. -/
def followPrompt (scene : Scene σ α ε) (r : Rehearsal σ α ε) : Option (Rehearsal σ α ε) :=
  ((scene.prompts r.cast r.now r.machine).findSome? (act scene r)).map (refresh scene)

/-- Something that happens now. -/
def turn (scene : Scene σ α ε) (r : Rehearsal σ α ε) : Option (Rehearsal σ α ε) :=
  (strike scene r).or (followPrompt scene r)

/-- Goes on until the goal is reached, or to the deadline, for so many steps at most. -/
def goOn (scene : Scene σ α ε) (goal : Rehearsal σ α ε → Bool) (deadline : Nat) :
    Nat → Rehearsal σ α ε → Rehearsal σ α ε
  | 0, r => r
  | steps + 1, r =>
      if goal r then r
      else
        match turn scene r with
        | some r => goOn scene goal deadline steps r
        | none =>
            match r.nextDue with
            | some due =>
                if due ≤ deadline then goOn scene goal deadline steps { r with now := due }
                else { r with now := deadline }
            | none => { r with now := deadline }

/-- More steps than any scripted run takes. -/
def patience : Nat := 10000000

/-- Does all that can be done within the next milliseconds. -/
def pass (scene : Scene σ α ε) (r : Rehearsal σ α ε) (millis : Nat) : Rehearsal σ α ε :=
  goOn scene (fun _ => false) (r.now + millis) patience r

/-- Does all that can be done now. -/
def settle (scene : Scene σ α ε) (r : Rehearsal σ α ε) : Rehearsal σ α ε := pass scene r 0

/-- How long somebody waits who waits in front of everybody: ten minutes. -/
def longest : Nat := 600000

/-- Goes on until the goal is reached, if that does not take too long. -/
def await (scene : Scene σ α ε) (goal : Rehearsal σ α ε → Bool) (r : Rehearsal σ α ε) :
    Rehearsal σ α ε :=
  goOn scene goal (r.now + longest) patience r

/-- Moves the clock without anybody noticing on the way. -/
def jump (scene : Scene σ α ε) (r : Rehearsal σ α ε) (millis : Nat) : Rehearsal σ α ε :=
  settle scene { r with now := r.now + millis }

def appoint (r : Rehearsal σ α ε) (millis : Nat) (actions : List α) : Rehearsal σ α ε :=
  { r with appointments := r.appointments ++ [(r.now + millis, actions)] }

/-- Changes the machine from outside. -/
def change (scene : Scene σ α ε) (r : Rehearsal σ α ε) (f : σ → σ) : Rehearsal σ α ε :=
  refresh scene { r with machine := f r.machine }

/-- Starts to take down anew what happens. -/
def turnPage (scene : Scene σ α ε) (r : Rehearsal σ α ε) : Rehearsal σ α ε :=
  { r with events := [], asked := [], peak := scene.collecting r.cast r.machine }

def eventsInOrder (r : Rehearsal σ α ε) : List (Nat × ε) := r.events.reverse

/-- The times of a question, in order. -/
def timesOf (r : Rehearsal σ α ε) (question : Question) : List Nat :=
  (r.asked.reverse.filter (·.2 = question)).map (·.1)

end Rehearsal

end Cadence
