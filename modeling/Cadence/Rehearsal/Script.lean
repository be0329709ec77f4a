import Cadence.Collector.Registry
import Cadence.Engine.Collecting
import Cadence.Scheduler.Working

/-!
Scripts for those whom a monitor works with.

A rehearsal replaces the instance, the collectors and the sinks by a cast that
answers from scripts.  Every answer may be given at once, after some
milliseconds, or never.
-/

namespace Cadence

/-- One answer of a script: how long it takes and what it is; without a text it never comes. -/
structure Cue where
  delay : Nat := 0
  answer : Option String := none
  deriving DecidableEq, Repr, Inhabited

namespace Cue

/-- When within a limit the answer comes, and what it is. -/
def within (c : Cue) (limit : Nat) : Option (Nat × String) :=
  c.answer.bind (fun text => if c.delay ≤ limit then some (c.delay, text) else none)

end Cue

abbrev Script := List Cue

/-- The answer to the next question, if any is written, and the rest; the last one is repeated. -/
def Script.next : Script → Option Cue × Script
  | [] => (none, [])
  | [cue] => (some cue, [cue])
  | cue :: rest => (some cue, rest)

/-- The answer to the next question, or one that is given at once. -/
def Script.nextOr (otherwise : String) (s : Script) : Cue × Script :=
  let (cue, rest) := s.next
  (cue.getD { answer := some otherwise }, rest)

/-- What the instance can be asked. -/
inductive Question where
  | ping
  | readOnly
  | standby
  deriving DecidableEq, Repr

inductive PrepareMode where
  | succeed
  | fail
  | hang
  /-- Cancels the preparation it is part of, and succeeds. -/
  | cancel
  deriving DecidableEq, Repr

inductive CollectMode where
  /-- One gauge named after the level. -/
  | level
  /-- A counter for each selected metric. -/
  | selected
  | empty
  | fail
  | hang
  /-- Panics with this message; where, may be known. -/
  | panic (message : String) (traced : Bool)
  /-- Panics with a message that names the domain and the level. -/
  | blowUp
  /-- Looks at a host that shows this. -/
  | measure (domain : HostDomain) (reading : HostReading)

structure CollectorScript where
  /-- What keeps the collector from being made, if anything does. -/
  createErrors : ErrorChain := []
  /-- Does not prepare or stage anything and always collects the same value. -/
  plain : Bool := false
  prepareMillis : Nat := 0
  prepare : PrepareMode := .succeed
  prepareErrors : ErrorChain := ["cannot prepare"]
  cleanup : Bool := false
  collectMillis : Nat := 0
  collect : CollectMode := .level
  errors : ErrorChain := ["query failed"]

structure SinkScript where
  name : String
  millis : Nat := 0
  deriving DecidableEq, Repr

structure Cast where
  ping : Script := []
  readOnly : Script := []
  standby : Script := []
  /-- The domains that can be collected. -/
  domains : List String := []
  collectors : Table String CollectorScript := ∅
  sinks : List SinkScript := []
  /-- Whether changes of plan fail that are not left to a scheduler. -/
  refusesChanges : Bool := false
  /-- For each collector known by now, whether it was made as a plain one. -/
  plain : Table Nat Bool := ∅

namespace CollectorScript

/-- Stands for the place of a panic. -/
def trace : String := "<backtrace>"

/-- A counter for each selected metric, with their number and with the options as its group. -/
def counters (selected : Option Selected) : List MetricValue :=
  match selected with
  | none => []
  | some s => s.metrics.map (fun metric =>
      { MetricValue.counter metric (.ofNat s.metrics.length) with group := s.options })

/-- What a collector brings in; nothing if it never ends. -/
def result (c : CollectorScript) (domain level : String) (selected : Option Selected) :
    Option CollectResult :=
  match c.collect with
  | .level => some (.values [.gauge level 1.0])
  | .selected => some (.values (counters selected))
  | .empty => some (.values [])
  | .fail => some (.failed c.errors)
  | .hang => none
  | .panic message traced => some (.panicked message (if traced then some trace else none))
  | .blowUp => some (.panicked s!"collector {domain} blew up on {level}!" (some trace))
  | .measure host reading => some (.values (host.collect selected reading))

/-- What a plain collector brings in. -/
def plainResult : CollectResult := .values [.counter "plain" 0.5]

end CollectorScript

namespace Cast

def collector (c : Cast) (domain : String) : CollectorScript := c.collectors[domain]?.getD {}

def creation (c : Cast) (domain : String) : Creation :=
  if domain ∈ c.domains then
    match (c.collector domain).createErrors with
    | [] => .created
    | chain => .failed chain
  else .failed [Registry.unknownMessage domain]

def isPlain (c : Cast) (collector : Nat) : Bool := c.plain[collector]?.getD false

/-- Keeps in mind how a collector was made when it is first met. -/
def meet (c : Cast) (domain : String) (collector : Nat) : Cast :=
  if c.plain.contains collector then c
  else { c with plain := c.plain.insert collector (c.collector domain).plain }

/-- The collectors of this library, on a host that shows `reading`. -/
def ofHost (reading : HostReading) : Cast where
  domains := BuiltinCollector.all.map BuiltinCollector.domain
  collectors := .ofList (BuiltinCollector.all.map (fun b =>
    (b.domain, match b, b.factory {} with
      | .host d, .ok _ => { collect := .measure d reading }
      | _, .ok _ => { collect := .empty }
      | _, .error chain => { createErrors := chain })))

end Cast

end Cadence
