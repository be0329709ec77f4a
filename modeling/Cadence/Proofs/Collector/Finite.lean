import Cadence.Proofs.Collector.Reporting
import Cadence.Proofs.Decimal.Range
import Cadence.Proofs.Metric.ReadBack

/-!
# When the status variables are finite

The reader of numbers takes the words for infinity and not-a-number, and decimals of
any size.  So a value is reported as a finite number exactly if its text spells a
decimal in the range of the doubles, and one other value spoils the line of its
batch.
-/

namespace Cadence.GlobalStatus

open Json (floatBy?)

/-- The value of the row spells a decimal that rounds to a finite double. -/
def Spells (row : Row) : Prop :=
  ∃ text d, row.get? "Value" = some (.text text) ∧ Decimal.Spelled (Text.trim text) d ∧
    d.value < 2 ^ 1024 - 2 ^ 970

/-- Every row that is reported spells such a decimal. -/
def Spelled (entry : Domain) (rows : List Row) : Prop :=
  ∀ row ∈ rows, (∃ v, Reports entry row v) → Spells row

variable {entry : Domain} {row : Row} {rows : List Row} {v : MetricValue}
  {values : List MetricValue} {b : Batch}

theorem Reports.finite_iff (h : Reports entry row v) :
    isFiniteNumber v.value = true ↔ Spells row := by
  obtain ⟨n, -, -, text, hvalue, hparse⟩ := h.reads
  rw [isFiniteNumber_of_parseFloat? hparse]
  constructor
  · rintro ⟨d, hd⟩
    exact ⟨text, d, hvalue, hd⟩
  · rintro ⟨text', d, hvalue', hd⟩
    obtain rfl : text = text' := Cell.text.inj (Option.some.inj (hvalue.symm.trans hvalue'))
    exact ⟨d, hd⟩

theorem forall_mem_iff_of_forall₂ {α β : Type} {R : α → β → Prop} {P : α → Prop} {Q : β → Prop}
    {as : List α} {bs : List β} (h : List.Forall₂ R as bs) (hR : ∀ a b, R a b → (P a ↔ Q b)) :
    (∀ a ∈ as, P a) ↔ ∀ b ∈ bs, Q b := by
  induction h with
  | nil => simp
  | cons hhead _ ih => rw [List.forall_mem_cons, List.forall_mem_cons, hR _ _ hhead, ih]

theorem spelled_iff
    (h : List.Forall₂ (Reports entry) (rows.filter (fun row => ∃ v, Reports entry row v)) values) :
    Spelled entry rows ↔ ∀ v ∈ values, isFiniteNumber v.value = true := by
  rw [← forall_mem_iff_of_forall₂ h fun _ _ hv => hv.finite_iff.symm]
  simp only [Spelled, List.mem_filter, decide_eq_true_eq, and_imp]

/-! ### The line of the batch -/

theorem mem_numbers_iff {x : Float} : x ∈ b.numbers ↔
    ∃ name values, b.values.get? name = some values ∧ ∃ v ∈ values, v.value = x := by
  simp only [Batch.numbers, List.mem_flatMap, List.mem_map, Table.mem_values]
  exact ⟨fun ⟨values, ⟨name, h⟩, hv⟩ => ⟨name, values, h, hv⟩,
    fun ⟨name, values, h, hv⟩ => ⟨values, ⟨name, h⟩, hv⟩⟩

/-- The values of status variables are finite as far as the reported rows spell decimals in the range
of the doubles.  So one word among them, or one decimal too large, spoils the line of the batch for
every reader; and without one, and with no such value in another domain, the line reads as the batch
for every reader that reads back its finite doubles. -/
theorem finite_iff_spelled (before : Selection) (plan : Plan) (level : String) (rows : List Row)
    (values : List MetricValue)
    (h : collect ((before.stage plan domain).commit.get? level) (.ok rows) = .ok values) :
    (plan.entryFor? level domain = none → values = []) ∧
      ∀ asked, plan.entryFor? level domain = some asked →
        List.Forall₂ (fun row v => Reports asked row v ∧ (isFiniteNumber v.value = true ↔ Spells row))
          (rows.filter (fun row => ∃ v, Reports asked row v)) values ∧
        ((∀ v ∈ values, isFiniteNumber v.value = true) ↔ Spelled asked rows) ∧
        ∀ (b : Batch) (read : JsonNumber → Option Float), b.values.get? domain = some values →
          b.began.InRange → b.ended.InRange →
            (¬ Spelled asked rows → Batch.parseBy? read b.renderLine = none) ∧
            (Spelled asked rows →
              (∀ other vs, other ≠ domain → b.values.get? other = some vs →
                ∀ v ∈ vs, isFiniteNumber v.value = true) →
              (∀ x ∈ b.numbers, isFiniteNumber x = true → floatBy? read (.ofFloat x) = some x) →
              Batch.parseBy? read b.renderLine = some b) := by
  rw [Selection.get?_commit_stage] at h
  refine ⟨fun hnone => ?_, fun asked hasked => ?_⟩
  · rw [hnone] at h
    exact (Except.ok.inj h).symm
  rw [hasked] at h
  have hall := reports_of_readRows h
  have hspelled := spelled_iff hall
  refine ⟨hall.imp fun row v hv => ⟨hv, hv.finite_iff⟩, hspelled.symm, ?_⟩
  intro b read hvalues began ended
  constructor
  · intro hnot
    rw [hspelled, not_forall] at hnot
    obtain ⟨v, hv⟩ := hnot
    obtain ⟨hv, hinfinite⟩ := Classical.not_imp.1 hv
    exact Batch.parseBy?_renderLine_eq_none (mem_numbers_iff.2 ⟨domain, values, hvalues, v, hv, rfl⟩)
      (Bool.eq_false_iff.2 hinfinite) read
  · intro hfinite hothers hread
    refine Batch.parseBy?_renderLine began ended fun x hx => hread x hx ?_
    obtain ⟨name, vs, hvs, v, hv, rfl⟩ := mem_numbers_iff.1 hx
    by_cases hname : name = domain
    · rw [hname, hvalues] at hvs
      obtain rfl := Option.some.inj hvs
      exact hspelled.1 hfinite v hv
    · exact hothers name vs hname hvs v hv

/-- One level that asks for everything. -/
def everything : Plan :=
  Plan.ofLevels "p" "inline" (.ofList [
    ("kpi", { freq := "1s", collect := .ofList [(domain, {})] })])

/-- A batch with these status variables. -/
def statusBatch (values : List MetricValue) : Batch where
  monitorId := "m1"
  plan := "p"
  level := "kpi"
  state := .active
  began := (Utc.parse? "2026-01-01T00:00:00Z").getD default
  ended := (Utc.parse? "2026-01-01T00:00:01Z").getD default
  values := .ofList [(domain, values)]
  errors := ∅

/-- The largest double is reported and read back, and a decimal just above it spoils the line. -/
theorem finite_iff_spelled_largest :
    let outcome rows :=
      collect ((({} : Selection).stage everything domain).commit.get? "kpi") (.ok rows)
    let rows := [statusRow "Uptime" (.text " 1.7976931348623157e308 "), statusRow "Ssl" (.text "ON")]
    let largest := MetricValue.counter "uptime" 1.7976931348623157e308
    let above := MetricValue.counter "load" (1.0 / 0.0)
    (outcome rows = .ok [largest] ∧
      Batch.parse? (statusBatch [largest]).renderLine = some (statusBatch [largest])) ∧
      outcome (rows ++ [statusRow "Load" (.text "1.7976931348623159e308")]) = .ok [largest, above] ∧
      ∀ read, Batch.parseBy? read (statusBatch [largest, above]).renderLine = none := by
  intro outcome rows largest above
  have hasked : everything.entryFor? "kpi" domain = some { name := domain } := by decide +kernel
  have began : (statusBatch []).began.InRange := ⟨by decide +kernel, by decide +kernel⟩
  have ended : (statusBatch []).ended.InRange := ⟨by decide +kernel, by decide +kernel⟩
  have hin : outcome rows = .ok [largest] := by decide +kernel
  have hout : outcome (rows ++ [statusRow "Load" (.text "1.7976931348623159e308")]) =
      .ok [largest, above] := by decide +kernel
  refine ⟨⟨hin, ?_⟩, hout, fun read => ?_⟩
  · obtain ⟨-, hall⟩ := finite_iff_spelled {} everything "kpi" _ _ hin
    obtain ⟨-, hspelled, hline⟩ := hall _ hasked
    obtain ⟨-, hreads⟩ := hline (statusBatch [largest]) JsonNumber.toFloat? (by decide +kernel)
      began ended
    rw [← Batch.parseBy?_toFloat?]
    refine hreads (hspelled.1 (by decide +kernel)) ?_ (by decide +kernel)
    intro other vs hother hvs
    simp [statusBatch, Table.ofList, Table.get?_insert, hother] at hvs
  · obtain ⟨-, hall⟩ := finite_iff_spelled {} everything "kpi" _ _ hout
    obtain ⟨-, hspelled, hline⟩ := hall _ hasked
    obtain ⟨hspoiled, -⟩ := hline (statusBatch [largest, above]) read (by decide +kernel) began ended
    exact hspoiled fun h => absurd (hspelled.2 h) (by decide +kernel)

/-- Words and a decimal that is too large are reported, and the line of the batch is lost. -/
theorem reports_words :
    ∃ values, collect ((({} : Selection).stage everything domain).commit.get? "kpi")
        (.ok [statusRow "Uptime" (.text "12"), statusRow "Queue_avg" (.text "-nan"),
          statusRow "Load" (.text "inf"), statusRow "Big" (.text "1e999")]) = .ok values ∧
      values.map (fun v => (v.name, isFiniteNumber v.value)) =
        [("uptime", true), ("queue_avg", false), ("load", false), ("big", false)] ∧
      Batch.parse? (statusBatch values).renderLine = none := by
  refine ⟨[.counter "uptime" 12.0, .counter "queue_avg" (-(0.0 / 0.0)), .counter "load" (1.0 / 0.0),
    .counter "big" (1.0 / 0.0)], by decide +kernel, by decide +kernel, ?_⟩
  rw [← Batch.parseBy?_toFloat?]
  refine Batch.parseBy?_renderLine_eq_none (x := 1.0 / 0.0) ?_ (by decide +kernel) _
  exact mem_numbers_iff.2 ⟨domain, _, rfl, .counter "load" (1.0 / 0.0), by simp, rfl⟩

end Cadence.GlobalStatus
