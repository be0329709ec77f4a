import Cadence.Metric.Json
import Cadence.Proofs.Json.Doubles
import Cadence.Proofs.Json.Reading
import Cadence.Proofs.Time.Rendering

/-!
# Batches read back

A batch is printed with fields left out, renamed and spelled in their own way, and
the decoder takes all of that back.  Doubles are the exception: the reader of
literals may miss one by a last place.  So decoding is stated for any reader, and
gives the batch whenever that reader reads back the doubles of the batch.
-/

namespace Cadence

open Json (field? fieldUnlessEmpty floatBy?)

theorem MetricKind.ofText?_text (kind : MetricKind) : ofText? kind.text = some kind := by
  cases kind <;> rfl

theorem InstanceState.ofText?_text (state : InstanceState) : ofText? state.text = some state := by
  cases state <;> rfl

/-! ### Decoding with any reader of doubles -/

def MetricValue.ofJsonBy? (read : JsonNumber → Option Float) (v : Json) : Option MetricValue := do
  let fields ← v.record? ["name", "value", "type", "group", "meta"]
  return {
    name := ← field? fields "name" none Json.text?
    value := ← field? fields "value" none (floatBy? read)
    kind := ← field? fields "type" none (fun v => v.text?.bind MetricKind.ofText?)
    group := ← field? fields "group" (some ∅) (Json.table? Json.text?)
    annotations := ← field? fields "meta" (some ∅) (Json.table? Json.text?) }

namespace Batch

def ofJsonBy? (read : JsonNumber → Option Float) (v : Json) : Option Batch := do
  let fields ← v.record?
    ["monitor_id", "plan", "level", "state", "begin", "end", "values", "errors"]
  let instant? (v : Json) : Option Utc := v.text?.bind Utc.parse?
  let values? (v : Json) : Option (List MetricValue) := do
    (← v.items?).mapM (MetricValue.ofJsonBy? read)
  return {
    monitorId := ← field? fields "monitor_id" none Json.text?
    plan := ← field? fields "plan" none Json.text?
    level := ← field? fields "level" none Json.text?
    state := ← field? fields "state" none (fun v => v.text?.bind InstanceState.ofText?)
    began := ← field? fields "begin" none instant?
    ended := ← field? fields "end" none instant?
    values := ← field? fields "values" none (Json.table? values?)
    errors := ← field? fields "errors" (some ∅) (Json.table? Json.text?) }

def parseBy? (read : JsonNumber → Option Float) (text : String) : Option Batch :=
  (Json.parse? text).bind (ofJsonBy? read)

theorem parseBy?_toFloat? : parseBy? JsonNumber.toFloat? = parse? := rfl

end Batch

variable {read : JsonNumber → Option Float}

/-- A table is written unless it is empty, and is empty unless it is written. -/
theorem emptyOrWritten (name : String) (t : Table String String) :
    (t = ∅ ∧ fieldUnlessEmpty name .string t = []) ∨
      fieldUnlessEmpty name .string t = [(name, .ofTable .string t)] := by
  cases h : t.isEmpty with
  | true => exact .inl ⟨Table.isEmpty_iff.1 h, if_pos h⟩
  | false => exact .inr (if_neg (by simp [h]))

theorem MetricValue.ofJsonBy?_toJson {v : MetricValue}
    (h : floatBy? read (.ofFloat v.value) = some v.value) : ofJsonBy? read v.toJson = some v := by
  obtain ⟨name, value, kind, group, annotations⟩ := v
  unfold toJson ofJsonBy?
  dsimp only at h ⊢
  rcases emptyOrWritten "group" group with ⟨rfl, hgroup⟩ | hgroup <;>
    rcases emptyOrWritten "meta" annotations with ⟨rfl, hmeta⟩ | hmeta <;>
      simp [hgroup, hmeta, Json.record?, field?, List.lookup_cons, h, Json.text?,
        MetricKind.ofText?_text, Json.table?_texts]

theorem MetricValue.ofJsonBy?_toJson_eq_none {v : MetricValue}
    (h : floatBy? read (.ofFloat v.value) = none) : ofJsonBy? read v.toJson = none := by
  unfold toJson ofJsonBy?
  rcases emptyOrWritten "group" v.group with ⟨-, hgroup⟩ | hgroup <;>
    rcases emptyOrWritten "meta" v.annotations with ⟨-, hmeta⟩ | hmeta <;>
      simp [hgroup, hmeta, Json.record?, field?, List.lookup_cons, h]

theorem printable_fieldUnlessEmpty {name : String} {t : Table String String}
    {field : String × Json} (h : field ∈ fieldUnlessEmpty name .string t) :
    field.2.Printable := by
  unfold fieldUnlessEmpty at h
  split at h
  · simp at h
  · obtain rfl := List.mem_singleton.1 h
    exact Json.printable_ofTable fun s _ => Json.printable_string s

theorem MetricValue.printable_toJson (v : MetricValue) : v.toJson.Printable := by
  rw [toJson, Json.printable_object]
  intro field hfield
  rcases List.mem_append.1 hfield with hfield | hfield
  · rcases List.mem_append.1 hfield with hfield | hfield
    · simp only [List.mem_cons, List.not_mem_nil, or_false] at hfield
      rcases hfield with rfl | rfl | rfl
      · exact Json.printable_string _
      · exact Json.printable_ofFloat _
      · exact Json.printable_string _
    · exact printable_fieldUnlessEmpty hfield
  · exact printable_fieldUnlessEmpty hfield

namespace Batch

def numbers (b : Batch) : List Float :=
  b.values.values.flatMap (fun values => values.map (·.value))

theorem ofJsonBy?_toJson {b : Batch} (began : b.began.InRange) (ended : b.ended.InRange)
    (h : ∀ x ∈ b.numbers, floatBy? read (.ofFloat x) = some x) :
    ofJsonBy? read b.toJson = some b := by
  obtain ⟨monitorId, plan, level, state, began', ended', values, errors⟩ := b
  have hvalues : Json.table? (fun v => v.items?.bind (List.mapM (MetricValue.ofJsonBy? read) ·))
      (.ofTable (fun values => .list (values.map MetricValue.toJson)) values) = some values := by
    refine Json.table?_ofTable fun domain hdomain => ?_
    refine Json.mapM_of_forall fun v hv => MetricValue.ofJsonBy?_toJson (h v.value ?_)
    exact List.mem_flatMap.2 ⟨domain, hdomain, List.mem_map_of_mem hv⟩
  unfold toJson ofJsonBy?
  dsimp only at began ended ⊢
  rcases emptyOrWritten "errors" errors with ⟨rfl, herrors⟩ | herrors <;>
    simp [herrors, Json.record?, field?, List.lookup_cons, Json.text?, InstanceState.ofText?_text,
      Utc.parse?_render began, Utc.parse?_render ended, hvalues, Json.table?_texts]

/-- A value that cannot be read spoils the whole batch. -/
theorem ofJsonBy?_toJson_eq_none {b : Batch} {x : Float} (hx : x ∈ b.numbers)
    (h : floatBy? read (.ofFloat x) = none) : ofJsonBy? read b.toJson = none := by
  have hvalues : Json.table? (fun v => v.items?.bind (List.mapM (MetricValue.ofJsonBy? read) ·))
      (.ofTable (fun values => .list (values.map MetricValue.toJson)) b.values) = none := by
    obtain ⟨values, hvalues, hx⟩ := List.mem_flatMap.1 hx
    obtain ⟨v, hv, rfl⟩ := List.mem_map.1 hx
    refine Json.table?_ofTable_eq_none hvalues ?_
    exact Json.mapM_eq_none (List.mem_map_of_mem hv) (MetricValue.ofJsonBy?_toJson_eq_none h)
  unfold toJson ofJsonBy?
  rcases emptyOrWritten "errors" b.errors with ⟨-, herrors⟩ | herrors <;>
    simp [herrors, Json.record?, field?, List.lookup_cons, hvalues]

/-! ### Lines -/

theorem printable_toJson (b : Batch) : b.toJson.Printable := by
  have hvalues : (Json.ofTable (fun values => .list (values.map MetricValue.toJson))
      b.values).Printable := by
    refine Json.printable_ofTable fun values _ => Json.printable_list.2 fun item hitem => ?_
    obtain ⟨v, -, rfl⟩ := List.mem_map.1 hitem
    exact v.printable_toJson
  rw [toJson, Json.printable_object]
  intro field hfield
  rcases List.mem_append.1 hfield with hfield | hfield
  · simp only [List.mem_cons, List.not_mem_nil, or_false] at hfield
    rcases hfield with rfl | rfl | rfl | rfl | rfl | rfl | rfl <;>
      first | exact hvalues | exact Json.printable_string _
  · exact printable_fieldUnlessEmpty hfield

theorem renderLine_eq (b : Batch) : ∃ text, b.renderLine = text ++ "\n" ∧ '\n' ∉ text.toList := by
  refine ⟨b.toJson.render, rfl, ?_⟩
  rw [Json.render, String.toList_ofList]
  exact Json.newline_not_mem_renderChars _ b.printable_toJson

theorem parseBy?_renderLine {b : Batch} (began : b.began.InRange) (ended : b.ended.InRange)
    (h : ∀ x ∈ b.numbers, floatBy? read (.ofFloat x) = some x) :
    parseBy? read b.renderLine = some b := by
  rw [parseBy?, renderLine, Json.parse?_render b.printable_toJson, Option.bind_some]
  exact ofJsonBy?_toJson began ended h

/-- No reader reads back a line with a number that is not finite. -/
theorem parseBy?_renderLine_eq_none {b : Batch} {x : Float} (hx : x ∈ b.numbers)
    (h : isFiniteNumber x = false) (read : JsonNumber → Option Float) :
    parseBy? read b.renderLine = none := by
  rw [parseBy?, renderLine, Json.parse?_render b.printable_toJson, Option.bind_some]
  exact ofJsonBy?_toJson_eq_none hx (Json.floatBy?_eq_none h read)

/-- Finite values, and instants of the years that the calendar goes through. -/
structure Holdable (b : Batch) : Prop where
  finite : ∀ x ∈ b.numbers, isFiniteNumber x
  began : b.began.InRange
  ended : b.ended.InRange

/-- A batch is printed on one line, and the line reads as the batch for every reader that reads back
its doubles; so two different batches are never printed alike. -/
theorem line_reads_back {b : Batch} (h : b.Holdable) :
    (∃ text, b.renderLine = text ++ "\n" ∧ '\n' ∉ text.toList) ∧
      (∀ read, (∀ x ∈ b.numbers, floatBy? read (.ofFloat x) = some x) →
        parseBy? read b.renderLine = some b) ∧
      ∀ other : Batch, other.Holdable → other.renderLine = b.renderLine → other = b := by
  refine ⟨b.renderLine_eq, fun read => parseBy?_renderLine h.began h.ended, ?_⟩
  intro other hother hsame
  obtain ⟨read, hread⟩ := Json.exists_reader
  have hb := parseBy?_renderLine h.began h.ended fun x hx => hread x (h.finite x hx)
  have hother := parseBy?_renderLine hother.began hother.ended
    fun x hx => hread x (hother.finite x hx)
  rw [hsame] at hother
  exact Option.some.inj (hother.symm.trans hb)

/-- A batch that begins in a leap second, with a minus zero, a domain without values and a
backtrace. -/
def leapBatch : Batch where
  monitorId := "m1"
  plan := "default"
  level := "kpi"
  state := .readOnly
  began := (Utc.parse? "2016-12-31T23:59:60.5Z").getD default
  ended := (Utc.parse? "2017-01-01T00:00:01Z").getD default
  values := .ofList [
    ("cpu", [(MetricValue.gauge "usage" 0.1).withGroup "core" "3", .counter "ticks" (-0.0)]),
    ("disk", [])]
  errors := .ofList [("net", "refused\n  0: \"connect\"\n")]

theorem line_reads_back_leapBatch :
    leapBatch.Holdable ∧ leapBatch.began.nanos = 1500000000 ∧
      (∃ text, leapBatch.renderLine = text ++ "\n" ∧ '\n' ∉ text.toList) ∧
      parse? leapBatch.renderLine = some leapBatch ∧
      { leapBatch with values := ∅ }.renderLine ≠ leapBatch.renderLine := by
  have holdable : leapBatch.Holdable :=
    ⟨by decide +kernel, ⟨by decide +kernel, by decide +kernel⟩,
      ⟨by decide +kernel, by decide +kernel⟩⟩
  obtain ⟨hline, hread, hdiffers⟩ := line_reads_back holdable
  refine ⟨holdable, by decide +kernel, hline, ?_, fun hsame => ?_⟩
  · rw [← parseBy?_toFloat?]
    exact hread _ (by decide +kernel)
  · have hempty : { leapBatch with values := ∅ } = leapBatch :=
      hdiffers _ ⟨by decide +kernel, holdable.began, holdable.ended⟩ hsame
    exact absurd (congrArg (fun b : Batch => b.values.isEmpty) hempty) (by decide +kernel)

end Batch

end Cadence
