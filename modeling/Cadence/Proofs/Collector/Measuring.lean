import Cadence.Collector.Host
import Cadence.Proofs.Collector.Selecting

/-!
# What a host is asked for

A collector of the host announces its metrics in one place and puts their values
together in another.  The two agree, and so an answer is the announced catalogue
cut down to the metrics that are asked for: it has their series in the order of the
catalogue, each of them once, and nothing else about the list that asks shows.
-/

namespace Cadence

/-- What tells a value from the others of its domain: name, kind and group. -/
structure Series where
  name : String
  kind : MetricKind
  group : Table String String
  deriving DecidableEq

def MetricValue.series (v : MetricValue) : Series := ⟨v.name, v.kind, v.group⟩

namespace HostDomain

variable {d : HostDomain} {s other : Selected}

/-- The series of a metric on a host with so many cores: the usage of the cores is told core by core,
and all but the uptime is of the moment. -/
def seriesOf (cores : Nat) (metric : String) : List Series :=
  if metric = "core_usage" then
    (List.range cores).map (fun i => ⟨metric, .gauge, .ofList [("core", toString i)]⟩)
  else if metric = "uptime" then [⟨metric, .counter, ∅⟩]
  else [⟨metric, .gauge, ∅⟩]

/-- What is put together is what is announced, metric by metric. -/
theorem map_measured (r : HostReading) (d : HostDomain) :
    (measured r d).map (fun m => (m.1, m.2.map (·.series))) =
      d.help.metrics.map (fun metric => (metric, seriesOf r.cores.length metric)) := by
  cases d with
  | cpu =>
      have hcores : (r.cores.mapIdx (fun i usage =>
            (MetricValue.gauge "core_usage" usage).withGroup "core" (toString i))).map (·.series) =
          seriesOf r.cores.length "core_usage" := by
        apply List.ext_getElem
        · simp [seriesOf]
        · intro i hi hi'
          simp [seriesOf, MetricValue.series, MetricValue.withGroup, MetricValue.gauge, Table.ofList]
      simp only [measured, List.map_cons, List.map_nil, hcores]
      rfl
  | memory => rfl
  | load => rfl

/-- An answer consists of the series of the catalogue that are wanted, in its order. -/
theorem series_collect (d : HostDomain) (s : Selected) (r : HostReading) :
    (d.collect (some s) r).map (·.series) =
      (d.help.metrics.filter s.wants).flatMap (seriesOf r.cores.length) := by
  calc (d.collect (some s) r).map (·.series)
      = (((measured r d).map (fun m => (m.1, m.2.map (·.series)))).filter
          (fun m => s.wants m.1)).flatMap (·.2) := by
        rw [collect, List.map_flatMap, List.filter_map, List.flatMap_map]
        rfl
    _ = (d.help.metrics.filter s.wants).flatMap (seriesOf r.cores.length) := by
        rw [map_measured, List.filter_map, List.flatMap_map]
        rfl

/-- Only what is said of the metrics in the catalogue counts. -/
theorem collect_congr (r : HostReading)
    (h : ∀ metric ∈ d.help.metrics, s.wants metric = other.wants metric) :
    d.collect (some s) r = d.collect (some other) r := by
  have hannounced : (measured r d).map (·.1) = d.help.metrics := by
    cases d <;> rfl
  rw [collect, collect]
  congr 1
  apply List.filter_congr
  intro m hm
  apply h
  rw [← hannounced]
  exact List.mem_map_of_mem hm

/-- A collector of the host answers with the series of its catalogue that the level wants.  The order
of the list that asks, its repetitions and the names in it that are not in the catalogue do not count,
as long as there is a list at all. -/
theorem answers_from_catalogue (d : HostDomain) (before : Selection) (plan : Plan) (level : String)
    (r : HostReading) :
    let answer := d.collect ((before.stage plan d.name).commit.get? level) r
    ((∀ l ∈ plan.levels.values, l.name = level → d.name ∉ l.collect) → answer = []) ∧
      ∀ asked, plan.entryFor? level d.name = some asked →
        answer.map (·.series) =
            (d.help.metrics.filter (fun m => asked.metrics = [] ∨ m ∈ asked.metrics)).flatMap
              (seriesOf r.cores.length) ∧
          (asked.metrics = [] →
            answer.map (·.series) = d.help.metrics.flatMap (seriesOf r.cores.length)) ∧
          ∀ (before' : Selection) (plan' : Plan) (level' : String) (asked' : Domain),
            plan'.entryFor? level' d.name = some asked' →
            (asked'.metrics = [] ↔ asked.metrics = []) →
            (∀ m ∈ d.help.metrics, m ∈ asked'.metrics ↔ m ∈ asked.metrics) →
            d.collect ((before'.stage plan' d.name).commit.get? level') r = answer := by
  intro answer
  refine ⟨fun hnone => ?_, fun asked hasked => ?_⟩
  · simp only [answer, Selection.get?_commit_stage, Plan.entryFor?_eq_none_iff.2 hnone]
    rfl
  have hanswer : answer = d.collect (some (.ofDomain asked)) r := by
    simp only [answer, Selection.get?_commit_stage, hasked, Option.map_some]
  have hseries : answer.map (·.series) =
      (d.help.metrics.filter (fun m => asked.metrics = [] ∨ m ∈ asked.metrics)).flatMap
        (seriesOf r.cores.length) := by
    rw [hanswer, series_collect]
    congr 1
    apply List.filter_congr
    intro m _
    rw [Bool.eq_iff_iff, Selected.wants_iff, decide_eq_true_iff]
    rfl
  refine ⟨hseries, fun hempty => ?_, fun before' plan' level' asked' hasked' hlisted hmetrics => ?_⟩
  · rw [hseries, List.filter_eq_self.2]
    simp [hempty]
  · rw [hanswer, Selection.get?_commit_stage, hasked', Option.map_some]
    apply collect_congr
    intro m hm
    rw [Bool.eq_iff_iff, Selected.wants_iff, Selected.wants_iff]
    exact or_congr hlisted (hmetrics m hm)

/-- Two levels, of which the slower one names a metric twice once it has inherited, and one more that
no collector knows. -/
def coresTwice : Plan :=
  Plan.ofLevels "p" "inline" (.ofList [
    ("fast", {
      freq := "1s"
      collect := .ofList [("host.cpu", { metrics := ["core_usage", "heat"] })] }),
    ("slow", {
      freq := "2s"
      collect := .ofList [("host.cpu", { metrics := ["usage", "core_usage"] })] })])

def coresOnce : Plan :=
  Plan.ofLevels "p" "inline" (.ofList [
    ("all", {
      freq := "1s"
      collect := .ofList [("host.cpu", { metrics := ["core_usage", "usage"] })] })])

def twoCores : HostReading := { (default : HostReading) with cores := [0.5, 0.25] }

theorem answers_from_catalogue_inherited :
    let answer := cpu.collect
      ((({} : Selection).stage coresTwice.inheriting cpu.name).commit.get? "slow") twoCores
    (coresTwice.inheriting.entryFor? "slow" cpu.name).map (·.metrics) =
        some ["usage", "core_usage", "core_usage", "heat"] ∧
      answer.map (·.series) = [⟨"usage", .gauge, ∅⟩,
        ⟨"core_usage", .gauge, .ofList [("core", "0")]⟩,
        ⟨"core_usage", .gauge, .ofList [("core", "1")]⟩] ∧
      cpu.collect ((({} : Selection).stage coresOnce cpu.name).commit.get? "all") twoCores = answer ∧
      memory.collect ((({} : Selection).stage coresTwice.inheriting memory.name).commit.get? "slow")
        twoCores = [] := by
  intro answer
  have hslow : coresTwice.inheriting.entryFor? "slow" cpu.name = some
      { name := "host.cpu", metrics := ["usage", "core_usage", "core_usage", "heat"] } := by
    decide +kernel
  have hall : coresOnce.entryFor? "all" cpu.name = some
      { name := "host.cpu", metrics := ["core_usage", "usage"] } := by
    decide +kernel
  obtain ⟨-, hasked⟩ := answers_from_catalogue cpu {} coresTwice.inheriting "slow" twoCores
  obtain ⟨hseries, -, hother⟩ := hasked _ hslow
  obtain ⟨hnone, -⟩ := answers_from_catalogue memory {} coresTwice.inheriting "slow" twoCores
  refine ⟨by rw [hslow]; rfl, hseries.trans (by decide +kernel), ?_, ?_⟩
  · exact hother {} coresOnce "all" _ hall (by decide) (by decide)
  · exact hnone (by decide +kernel)

end HostDomain

end Cadence
