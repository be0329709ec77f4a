import Cadence.InstanceState
import Cadence.Metric.Basic
import Cadence.Time.Utc

/-!
What one round of collection brings in: values by domain, and an error text for
each domain that failed.
-/

namespace Cadence

structure Batch where
  monitorId : String
  plan : String
  level : String
  state : InstanceState
  began : Utc
  ended : Utc
  values : Table String (List MetricValue)
  errors : Table String String
  deriving DecidableEq, Inhabited

namespace Batch

/-- A batch without values, taken at `now`. -/
def empty (monitorId plan level : String) (now : Utc) : Batch :=
  { monitorId, plan, level, state := .active, began := now, ended := now, values := ∅, errors := ∅ }

/-- The number of values in all domains. -/
def size (b : Batch) : Nat := b.values.values.foldl (fun n values => n + values.length) 0

def isEmpty (b : Batch) : Bool := b.size = 0

end Batch

end Cadence
