import Cadence.Text.LowerCase

/-!
The operating state of a monitored instance.
-/

namespace Cadence

inductive InstanceState where
  | offline
  | standby
  | readOnly
  | active
  deriving DecidableEq, Repr, Inhabited

namespace InstanceState

def text : InstanceState → String
  | offline => "offline"
  | standby => "standby"
  | readOnly => "read-only"
  | active => "active"

/-- The state with exactly this text. -/
def ofText? : String → Option InstanceState
  | "offline" => some offline
  | "standby" => some standby
  | "read-only" => some readOnly
  | "active" => some active
  | _ => none

/-- Reads a state in any case, and `read-only` also with `_` or joined. -/
def parse? (s : String) : Option InstanceState :=
  match Text.lower s with
  | "read_only" | "readonly" => some readOnly
  | lowered => ofText? lowered

def unknownMessage (s : String) : String := s!"unknown instance state: {s}"

end InstanceState

end Cadence
