import Cadence.Table.Basic
import Cadence.Text.LowerCase

/-!
Metric values.

A value belongs to the series that its name and its group select; `meta` holds
annotations that do not.
-/

namespace Cadence

/-- How a value is to be interpreted. -/
inductive MetricKind where
  | counter
  | gauge
  | bool
  | event
  deriving DecidableEq, Repr, Inhabited

namespace MetricKind

def text : MetricKind → String
  | counter => "counter"
  | gauge => "gauge"
  | bool => "bool"
  | event => "event"

/-- The kind with exactly this text. -/
def ofText? : String → Option MetricKind
  | "counter" => some counter
  | "gauge" => some gauge
  | "bool" => some bool
  | "event" => some event
  | _ => none

def parse? (s : String) : Option MetricKind := ofText? (Text.lower s)

def unknownMessage (s : String) : String := s!"unknown metric type: {s}"

end MetricKind

structure MetricValue where
  name : String
  value : Float
  kind : MetricKind
  group : Table String String := ∅
  annotations : Table String String := ∅
  deriving DecidableEq, Inhabited

namespace MetricValue

def gauge (name : String) (value : Float) : MetricValue := { name, value, kind := .gauge }

def counter (name : String) (value : Float) : MetricValue := { name, value, kind := .counter }

def withGroup (v : MetricValue) (key value : String) : MetricValue :=
  { v with group := v.group.insert key value }

end MetricValue

/-- A group as `key=value` pairs separated by commas. -/
def renderGroup (group : Table String String) : String :=
  ", ".intercalate (group.toList.map (fun (k, v) => k ++ "=" ++ v))

end Cadence
