import Cadence.Metric.Json

/-!
Where batches go.

The log gets one entry for a batch and one for each of its values; the JSON sink
writes a line.
-/

namespace Cadence

inductive Sink where
  | log
  | json
  deriving DecidableEq, Repr

namespace Sink

def name : Sink → String
  | log => "log"
  | json => "json"

def all : List Sink := [log, json]

def ofName? (name : String) : Option Sink := all.find? (·.name = name)

def unknownMessage (name : String) : String := s!"unknown sink: {name}"

/-- The sinks of these names in their order, or the first name that is none. -/
def ofNames (names : List String) : Except String (List Sink) :=
  names.mapM (fun name =>
    match ofName? name with
    | some sink => .ok sink
    | none => .error (unknownMessage name))

end Sink

inductive Severity where
  | info
  | debug
  deriving DecidableEq, Repr

def Severity.text : Severity → String
  | info => "INFO"
  | debug => "DEBUG"

inductive LogValue where
  | text (s : String)
  | integer (n : Int)
  | number (x : Float)
  deriving DecidableEq

structure LogEntry where
  severity : Severity
  message : String
  fields : List (String × LogValue)
  deriving DecidableEq

namespace Batch

def summaryEntry (b : Batch) : LogEntry where
  severity := .info
  message := "Metrics collected"
  fields := [("monitor_id", .text b.monitorId), ("plan", .text b.plan), ("level", .text b.level),
    ("state", .text b.state.text), ("values", .integer b.size), ("errors", .integer b.errors.size),
    ("elapsed_ms", .integer (b.began.millisUntil b.ended))]

def valueEntry (domain : String) (v : MetricValue) : LogEntry where
  severity := .debug
  message := v.kind.text
  fields := [("domain", .text domain), ("metric", .text v.name),
    ("group", .text (renderGroup v.group)), ("value", .number v.value)]

/-- What the log says about a batch. -/
def logEntries (b : Batch) : List LogEntry :=
  b.summaryEntry ::
    b.values.toList.flatMap (fun (domain, values) => values.map (valueEntry domain))

end Batch

end Cadence
