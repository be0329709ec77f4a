import Cadence.Proofs.Engine.Coverage

/-!
# What a batch says of each domain

Whatever its collectors do and in whatever order, a round ends with one result
for each domain of its level, and the batch reports that result and nothing else.
So the values and errors of a batch follow from the live plan and from how each
task has ended, and do not depend on when it did or on what the others did.
-/

namespace Cadence

/-- The entries of a domain in a batch are those of one result. -/
inductive Batch.Reports (batch : Batch) (domain : String) : CollectResult → Prop
  | values {values : List MetricValue} : batch.values.get? domain = some values →
      batch.errors.get? domain = none → Reports batch domain (.values values)
  | failed {chain : ErrorChain} : batch.values.get? domain = none →
      batch.errors.get? domain = some chain.joined → Reports batch domain (.failed chain)
  | panicked {message : String} {trace : Option String} : batch.values.get? domain = none →
      batch.errors.get? domain =
        some ("PANIC: " ++ message ++ "\n" ++ trace.getD "(no backtrace captured)") →
      Reports batch domain (.panicked message trace)
  | died : batch.values.get? domain = none →
      batch.errors.get? domain = some "collector task failed" → Reports batch domain .died

namespace Batch

variable {batch : Batch} {domain : String} {result : CollectResult}

theorem reports_iff : batch.Reports domain result ↔
    batch.values.get? domain = result.values? ∧ batch.errors.get? domain = result.error? := by
  constructor
  · rintro (⟨hvalues, herrors⟩ | ⟨hvalues, herrors⟩ | ⟨hvalues, herrors⟩ | ⟨hvalues, herrors⟩) <;>
      exact ⟨hvalues, herrors⟩
  · rintro ⟨hvalues, herrors⟩
    cases result with
    | values values => exact .values hvalues herrors
    | failed chain => exact .failed hvalues herrors
    | panicked message trace => exact .panicked hvalues herrors
    | died => exact .died hvalues herrors

theorem Reports.mem (h : batch.Reports domain result) :
    domain ∈ batch.values ∨ domain ∈ batch.errors := by
  rw [reports_iff] at h
  rw [Table.mem_iff, Table.mem_iff, h.1, h.2, ← Option.isSome_iff_exists, ← Option.isSome_iff_exists]
  exact CollectResult.isSome_values_or_error result

theorem Reports.disjoint (h : batch.Reports domain result) (hmem : domain ∈ batch.values) :
    domain ∉ batch.errors := by
  intro herror
  obtain ⟨values, hvalues⟩ := Table.mem_iff.1 hmem
  obtain ⟨error, herror⟩ := Table.mem_iff.1 herror
  cases h <;> simp_all

end Batch

namespace Engine

variable {e : Engine} {id : Nat} {history : List (Step Engine EngineAction EngineEvent)}

/-- A round of a level of this live state has accounted for every domain once. -/
structure Accounts (live : LiveState) (id : Nat)
    (history : List (Step Engine EngineAction EngineEvent)) (batch : Batch) : Prop where
  plan : batch.plan = (live.plan.map (·.name)).getD ""
  /-- Each domain of the level ends once, after at most one call and after one unless it dies. -/
  once : ∀ d ∈ live.asked batch.level, calls id d history ≤ 1 ∧ ∃ result,
    outcomes id d history = [result] ∧ (result ≠ .died → calls id d history = 1) ∧
      batch.Reports d result
  others : ∀ d, d ∉ live.asked batch.level → calls id d history = 0 ∧ outcomes id d history = []
  keys : ∀ d, d ∈ batch.values ∨ d ∈ batch.errors ↔ d ∈ live.asked batch.level
  disjoint : ∀ d ∈ batch.values, d ∉ batch.errors
  /-- The live plan and how the tasks end determine the entries. -/
  determined : ∀ outcome : String → CollectResult,
    (∀ d ∈ live.asked batch.level, outcome d ∈ outcomes id d history) →
    batch.values = (live.asked batch.level).filterMap (fun d _ => (outcome d).values?) ∧
      batch.errors = (live.asked batch.level).filterMap (fun d _ => (outcome d).error?)

theorem Tallies.of_result? {t : RoundTask} {n : Nat} {results : List CollectResult}
    {result : CollectResult} (h : Tallies (some t) n results) (hresult : t.result? = some result) :
    n ≤ 1 ∧ results = [result] ∧ (result ≠ .died → n = 1) := by
  cases h with
  | waiting hstage => simp [RoundTask.result?, hstage] at hresult
  | collecting hstage => simp [RoundTask.result?, hstage] at hresult
  | ended hstage hle halive =>
      obtain rfl : _ = result := by simpa [RoundTask.result?, hstage] using hresult
      exact ⟨hle, rfl, halive⟩

theorem Tallies.of_none {n : Nat} {results : List CollectResult} (h : Tallies none n results) :
    n = 0 ∧ results = [] := by
  cases h
  exact ⟨rfl, rfl⟩

/-- A batch that reports one result for each domain of the level, and for no others, accounts for
all of them. -/
theorem accounts_of_reports {live : LiveState} {batch : Batch}
    (plan : batch.plan = (live.plan.map (·.name)).getD "")
    (once : ∀ d ∈ live.asked batch.level, calls id d history ≤ 1 ∧ ∃ result,
      outcomes id d history = [result] ∧ (result ≠ .died → calls id d history = 1) ∧
        batch.Reports d result)
    (others : ∀ d, d ∉ live.asked batch.level → calls id d history = 0 ∧ outcomes id d history = [])
    (absent : ∀ d, d ∉ live.asked batch.level →
      batch.values.get? d = none ∧ batch.errors.get? d = none) :
    Accounts live id history batch := by
  have keys : ∀ d, d ∈ batch.values ∨ d ∈ batch.errors ↔ d ∈ live.asked batch.level := by
    intro d
    by_cases hd : d ∈ live.asked batch.level
    · obtain ⟨-, result, -, -, hreports⟩ := once d hd
      exact iff_of_true hreports.mem hd
    · refine iff_of_false ?_ hd
      simp [Table.mem_iff, absent d hd]
  refine ⟨plan, once, others, keys, fun d hvalues => ?_, fun outcome houtcome => ?_⟩
  · obtain ⟨-, result, -, -, hreports⟩ := once d ((keys d).1 (.inl hvalues))
    exact hreports.disjoint hvalues
  · have entries : ∀ d,
        batch.values.get? d = ((live.asked batch.level).get? d).bind (fun _ => (outcome d).values?) ∧
        batch.errors.get? d =
          ((live.asked batch.level).get? d).bind (fun _ => (outcome d).error?) := by
      intro d
      by_cases hd : d ∈ live.asked batch.level
      · obtain ⟨-, result, houtcomes, -, hreports⟩ := once d hd
        obtain rfl : outcome d = result := by simpa [houtcomes] using houtcome d hd
        obtain ⟨domain, hdomain⟩ := Table.mem_iff.1 hd
        simpa [hdomain] using Batch.reports_iff.1 hreports
      · have hnone : (live.asked batch.level).get? d = none := by
          simpa [Table.mem_iff, Option.eq_none_iff_forall_ne_some] using hd
        simpa [hnone] using absent d hd
    constructor
    · ext d : 1
      rw [Table.get?_filterMap]
      exact (entries d).1
    · ext d : 1
      rw [Table.get?_filterMap]
      exact (entries d).2

section Runs

variable {settings : EngineSettings} {board : Board} {r : EngineRound}

theorem Tallies.ended_iff {t : RoundTask} {n : Nat} {results : List CollectResult}
    (h : Tallies (some t) n results) : t.result?.isSome = true ↔ results ≠ [] := by
  cases h with
  | waiting hstage => simp [RoundTask.result?, hstage]
  | collecting hstage => simp [RoundTask.result?, hstage]
  | ended hstage => simp [RoundTask.result?, hstage]

/-- An open round can be closed once every domain of its level has ended, and not before. -/
theorem close_iff (run : Run step (create settings board) history e)
    (hr : e.rounds.get? id = some r) (hopen : r.stage.isQueued = false) (now : Utc) :
    (e.step (.close id now)).isSome = true ↔
      ∀ d ∈ e.live.asked r.level, outcomes id d history ≠ [] := by
  have tallies := tallies_of_run run (.inl (Table.mem_iff.2 ⟨r, hr⟩))
  obtain ⟨-, tasked⟩ := (complete_of_run run).rounds id r hr hopen
  constructor
  · intro hsome d hd
    obtain ⟨next, taken⟩ := Option.isSome_iff_exists.1 hsome
    obtain ⟨r', plan, began, tasks, hr', hstage, hended, -⟩ := close_eq_some taken
    obtain rfl := Option.some.inj (hr.symm.trans hr')
    obtain ⟨t, ht⟩ := Option.isSome_iff_exists.1 ((tasked d).2 hd)
    exact (ht ▸ tallies d).ended_iff.1 (hended d t (task?_eq_get? hr hstage d ▸ ht))
  · intro hended
    cases hstage : r.stage with
    | queued => simp [hstage, RoundStage.isQueued] at hopen
    | collecting plan began tasks =>
        have hall : tasks.values.all (fun t => t.result?.isSome) = true := by
          refine List.all_eq_true.2 (fun t ht => ?_)
          obtain ⟨d, hd⟩ := Table.mem_values.1 ht
          have htask : e.task? id d = some t := (task?_eq_get? hr hstage d).trans hd
          have hasked : d ∈ e.live.asked r.level :=
            (tasked d).1 (Option.isSome_iff_exists.2 ⟨t, htask⟩)
          exact (htask ▸ tallies d).ended_iff.2 (hended d hasked)
        simpa [step, close, withRound, hr, hstage] using hall

/-- The batch of a round accounts for the level in the plan that was live when the round got at
the live state. -/
theorem accounts_of_collected {steps : List (Step Engine EngineAction EngineEvent)}
    {closing : Step Engine EngineAction EngineEvent} {batch : Batch}
    (before : Run step (create settings board) steps closing.before)
    (taken : closing.before.step closing.action = some (closing.after, closing.events))
    (returned : .collected id batch ∈ closing.events) :
    ∃ pre entering rest now, steps ++ [closing] = pre ++ entering :: rest ∧
      entering.action = .enter id now ∧
      (∃ r, entering.before.rounds.get? id = some r ∧ r.level = batch.level) ∧
      Accounts entering.before.live id (steps ++ [closing]) batch := by
  have complete := complete_of_run before
  obtain ⟨r, now, hr, hcases⟩ := collected_step taken returned
  have tallies := tallies_of_run before (.inl (Table.mem_iff.2 ⟨r, hr⟩))
  -- the step that hands the batch over neither calls a collector nor ends a task
  have same : ∀ d, calls id d (steps ++ [closing]) = calls id d steps ∧
      outcomes id d (steps ++ [closing]) = outcomes id d steps := by
    intro d
    rw [calls_snoc, outcomes_snoc]
    rcases hcases with ⟨haction, -⟩ | ⟨-, -, -, haction, -⟩ <;>
      simp [haction, EngineAction.outcome?]
  have unasked : ∀ d, closing.before.task? id d = none →
      calls id d (steps ++ [closing]) = 0 ∧ outcomes id d (steps ++ [closing]) = [] := by
    intro d hnone
    rw [(same d).1, (same d).2]
    exact (hnone ▸ tallies d).of_none
  rcases hcases with ⟨haction, hempty, rfl⟩ |
    ⟨plan, began, tasks, haction, hstage, hended, rfl⟩
  · -- no collector for this level: the plan asks nothing there, and the batch is empty
    have hasked : ∀ d, d ∉ closing.before.live.asked r.level := by
      intro d
      rw [← complete.live.isSome_level, Table.isEmpty_iff.1 hempty]
      simp
    have hnone : ∀ d, closing.before.task? id d = none := by
      rw [haction] at taken
      obtain ⟨r', hr', hqueued, -⟩ := enter_eq_some taken
      exact task?_of_queued hr' hqueued
    refine ⟨steps, closing, [], now, rfl, haction, ⟨r, hr, rfl⟩, accounts_of_reports rfl ?_ ?_ ?_⟩
    · exact fun d hd => absurd hd (hasked d)
    · exact fun d _ => unasked d (hnone d)
    · exact fun d _ => ⟨rfl, rfl⟩
  · have hopen : r.stage.isQueued = false := by simp [hstage, RoundStage.isQueued]
    obtain ⟨hnamed, tasked⟩ := complete.rounds id r hr hopen
    obtain ⟨pre, entering, rest, now', hsteps, hentering, hlive, hlevel, -⟩ :=
      entered rfl before hr hopen
    refine ⟨pre, entering, rest ++ [closing], now', by simp [hsteps], hentering, hlevel, ?_⟩
    rw [← hlive]
    have hplan : plan = closing.before.livePlanName := by simpa [hstage, RoundStage.plan?] using hnamed
    refine accounts_of_reports hplan (fun d hd => ?_) (fun d hd => ?_) (fun d hd => ?_)
    · obtain ⟨t, htask⟩ := Option.isSome_iff_exists.1 ((tasked d).2 hd)
      have ht : tasks.get? d = some t := task?_eq_get? hr hstage d ▸ htask
      obtain ⟨result, hresult⟩ := Option.isSome_iff_exists.1 (hended d t ht)
      obtain ⟨hle, houtcomes, halive⟩ := (htask ▸ tallies d).of_result? hresult
      rw [(same d).1, (same d).2]
      exact ⟨hle, result, houtcomes, halive, Batch.reports_iff.2 (get?_batchOf _ _ _ _ _ ht hresult)⟩
    · refine unasked d (Option.not_isSome_iff_eq_none.1 (fun hsome => ?_))
      exact hd ((tasked d).1 hsome)
    · have hnone : tasks.get? d = none := by
        rw [← task?_eq_get? hr hstage d]
        exact Option.not_isSome_iff_eq_none.1 (fun hsome => hd ((tasked d).1 hsome))
      exact get?_batchOf_of_none _ _ _ _ _ hnone

/--
Whatever the collectors do and whenever they do it, a round has its batch once
every domain of its level has ended, and the batch accounts for each of them in
the plan that was live when the round got at the live state.
-/
theorem accounts_for_each_domain (run : Run step (create settings board) history e) (id : Nat) :
    (∀ r, e.rounds.get? id = some r → r.stage.isQueued = false → ∀ now,
      (e.step (.close id now)).isSome = true ↔
        ∀ d ∈ e.live.asked r.level, outcomes id d history ≠ []) ∧
    ∀ closing batch, closing.before = e →
      e.step closing.action = some (closing.after, closing.events) →
      .collected id batch ∈ closing.events →
      ∃ pre entering rest now, history ++ [closing] = pre ++ entering :: rest ∧
        entering.action = .enter id now ∧
        (∃ r, entering.before.rounds.get? id = some r ∧ r.level = batch.level) ∧
        Accounts entering.before.live id (history ++ [closing]) batch := by
  refine ⟨fun r hr hopen now => close_iff run hr hopen now, ?_⟩
  rintro closing batch rfl taken returned
  exact accounts_of_collected run taken returned

end Runs

def fourDomains : Plan :=
  .ofLevels "a" "inline" (.ofList [("kpi", {
    freq := "1s"
    collect := .ofList [("cpu", {}), ("disk", {}), ("net", {}), ("ram", {})] })])

/-- Of four domains one answers, one fails, one panics and one is lost before it starts. -/
def mixedOutcomes : List EngineAction :=
  [.beginPrepare fourDomains false, .pinged 0 .answered, .copyLive 0,
    .visit 0 .created false, .collectorPrepared 0 (.prepared false),
    .visit 0 .created false, .collectorPrepared 0 (.prepared false),
    .visit 0 .created false, .collectorPrepared 0 (.prepared false),
    .visit 0 .created false, .collectorPrepared 0 (.prepared false),
    .conclude 0, .swap 0 .all, .cleanUp 0 none, .prune 0, .beginCollect "kpi", .enter 1 .epoch,
    .startTask 1 "disk", .startTask 1 "cpu", .loseTask 1 "ram",
    .finishTask 1 "disk" (.failed ["query failed", "timeout"]), .startTask 1 "net",
    .finishTask 1 "net" (.panicked "boom" none), .finishTask 1 "cpu" (.values [])]

def mixedBatch : Batch :=
  { Batch.empty "" "a" "kpi" .epoch with
    values := .ofList [("cpu", [])]
    errors := .ofList [("disk", "query failed: timeout"),
      ("net", "PANIC: boom\n(no backtrace captured)"), ("ram", "collector task failed")] }

def mixedRun : List (Step Engine EngineAction EngineEvent) × Engine :=
  Run.follow step (create {} ∅) mixedOutcomes

theorem accounts_for_each_domain_mixedOutcomes :
    ∃ closing : Step Engine EngineAction EngineEvent,
      Run step (create {} ∅) mixedRun.1 closing.before ∧
      step closing.before (.close 1 .epoch) = some (closing.after, [.collected 1 mixedBatch]) ∧
      ∃ entering ∈ mixedRun.1 ++ [closing],
        Accounts entering.before.live 1 (mixedRun.1 ++ [closing]) mixedBatch := by
  have hrun : Run step (create {} ∅) mixedRun.1 mixedRun.2 := Run.of_follow ..
  have hbatch : (mixedRun.2.step (.close 1 .epoch)).map (·.2) = some [.collected 1 mixedBatch] := by
    decide +kernel
  obtain ⟨⟨last, events⟩, taken, rfl⟩ := Option.map_eq_some_iff.1 hbatch
  obtain ⟨pre, entering, rest, now, hsteps, -, -, haccounts⟩ :=
    (accounts_for_each_domain hrun 1).2 ⟨mixedRun.2, .close 1 .epoch, last, _⟩ mixedBatch rfl taken
      List.mem_cons_self
  exact ⟨⟨mixedRun.2, .close 1 .epoch, last, _⟩, hrun, taken, entering, by simp [hsteps], haccounts⟩

end Engine

end Cadence
