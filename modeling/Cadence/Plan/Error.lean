import Cadence.ErrorChain
import Cadence.Text.Basic

/-!
Why a plan is refused, and how each reason reads.
-/

namespace Cadence

inductive PlanError where
  /-- The frequency of a level is no duration of at least one second. -/
  | invalidFreq (plan level freq reason : String)
  /-- Two levels collect at the same frequency. -/
  | duplicateFreq (plan first second : String) (secs : Nat)
  /-- A metric name has a character other than letters, digits, `_` and `-`. -/
  | invalidMetric (plan level domain metric : String)
  | unknownPlan (name : String)
  | noPlans
  | duplicatePlan (name source : String)
  | unreadable (path reason : String)
  /-- The text of a plan is not the notation, or not a map of levels. -/
  | malformed (plan : String)
  deriving DecidableEq, Repr

namespace PlanError

def message : PlanError → String
  | invalidFreq plan level freq reason =>
      s!"plan {plan}: level {level}: invalid freq {Text.quoted freq}: {reason}"
  | duplicateFreq plan first second secs =>
      s!"plan {plan}: levels {first} and {second} have the same frequency ({secs}s)"
  | invalidMetric plan level domain metric =>
      s!"plan {plan}: level {level}: domain {domain}: invalid metric name {Text.quoted metric}"
  | unknownPlan name => s!"plan {name} is not loaded"
  | noPlans => "no plans are loaded"
  | duplicatePlan name source => s!"plan {name} is already loaded from {source}"
  | unreadable path reason => s!"reading plan file {path}: {reason}"
  | malformed plan => s!"parsing plan {plan}"

/-- The message, and the reason of the system if it has one. -/
def chain : PlanError → ErrorChain
  | unreadable path reason => [message (unreadable path reason), reason]
  | e => [e.message]

end PlanError

end Cadence
