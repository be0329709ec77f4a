import Cadence.Duration.Parser
import Cadence.InstanceState
import Cadence.Json.Decode

/-!
Which plan belongs to which state of the instance, and how long a state has to
persist before its plan is taken up.
-/

namespace Cadence

structure StateRule where
  /-- How long the state must persist. -/
  after : Duration := .zero
  /-- The plan to run; without a name nothing is collected. -/
  plan : String := ""
  deriving DecidableEq, Inhabited

structure Policy where
  offline : StateRule := {}
  standby : StateRule := {}
  readOnly : StateRule := {}
  active : StateRule := {}
  deriving DecidableEq, Inhabited

open Json (field?)

def Json.duration? (v : Json) : Option Duration :=
  v.text?.bind (fun s => (Duration.parse s).toOption)

def StateRule.ofJson? (v : Json) : Option StateRule := do
  let fields ← v.record? ["after", "plan"]
  return {
    after := ← field? fields "after" (some .zero) Json.duration?
    plan := ← field? fields "plan" (some "") Json.text? }

namespace Policy

def rule (p : Policy) : InstanceState → StateRule
  | .offline => p.offline
  | .standby => p.standby
  | .readOnly => p.readOnly
  | .active => p.active

/-- The same record with the one field that has two spellings in its first spelling. -/
def respelled : Json → Json
  | .object fields =>
      .object (fields.map (fun (name, v) => (if name = "read-only" then "read_only" else name, v)))
  | v => v

def ofJson? (v : Json) : Option Policy := do
  let fields ← (respelled v).record? ["offline", "standby", "read_only", "active"]
  let rule? (name : String) : Option StateRule :=
    field? fields name (some {}) StateRule.ofJson?
  return {
    offline := ← rule? "offline"
    standby := ← rule? "standby"
    readOnly := ← rule? "read_only"
    active := ← rule? "active" }

end Policy

end Cadence
