import Cadence.Json.Decode
import Cadence.Json.Number
import Cadence.Json.Printer
import Cadence.Json.Reader
import Cadence.Metric.Batch

/-!
Batches as JSON.

Fields are written in a fixed order; empty groups, annotations and errors are
left out.
-/

namespace Cadence

open Json (field? fieldUnlessEmpty)

def Json.float? : Json → Option Float
  | .number n => n.toFloat?
  | _ => none

def MetricValue.toJson (v : MetricValue) : Json :=
  .object ([("name", .string v.name), ("value", .ofFloat v.value), ("type", .string v.kind.text)] ++
    fieldUnlessEmpty "group" .string v.group ++
    fieldUnlessEmpty "meta" .string v.annotations)

def MetricValue.ofJson? (v : Json) : Option MetricValue := do
  let fields ← v.record? ["name", "value", "type", "group", "meta"]
  return {
    name := ← field? fields "name" none Json.text?
    value := ← field? fields "value" none Json.float?
    kind := ← field? fields "type" none (fun v => v.text?.bind MetricKind.ofText?)
    group := ← field? fields "group" (some ∅) (Json.table? Json.text?)
    annotations := ← field? fields "meta" (some ∅) (Json.table? Json.text?) }

namespace Batch

def toJson (b : Batch) : Json :=
  .object ([("monitor_id", .string b.monitorId), ("plan", .string b.plan),
    ("level", .string b.level), ("state", .string b.state.text),
    ("begin", .string b.began.render), ("end", .string b.ended.render),
    ("values", .ofTable (fun values => .list (values.map MetricValue.toJson)) b.values)] ++
    fieldUnlessEmpty "errors" .string b.errors)

def ofJson? (v : Json) : Option Batch := do
  let fields ← v.record?
    ["monitor_id", "plan", "level", "state", "begin", "end", "values", "errors"]
  let instant? (v : Json) : Option Utc := v.text?.bind Utc.parse?
  let values? (v : Json) : Option (List MetricValue) := do
    (← v.items?).mapM MetricValue.ofJson?
  return {
    monitorId := ← field? fields "monitor_id" none Json.text?
    plan := ← field? fields "plan" none Json.text?
    level := ← field? fields "level" none Json.text?
    state := ← field? fields "state" none (fun v => v.text?.bind InstanceState.ofText?)
    began := ← field? fields "begin" none instant?
    ended := ← field? fields "end" none instant?
    values := ← field? fields "values" none (Json.table? values?)
    errors := ← field? fields "errors" (some ∅) (Json.table? Json.text?) }

/-- The batch that a JSON text describes. -/
def parse? (text : String) : Option Batch := (Json.parse? text).bind ofJson?

/-- The batch as one line of JSON. -/
def renderLine (b : Batch) : String := b.toJson.render ++ "\n"

end Batch

end Cadence
