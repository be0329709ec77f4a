import Cadence.Proofs.Engine.Consistency
import Cadence.Proofs.Engine.Gathering

/-!
# Every batch comes from one plan

A swap needs the live state for itself, so the plan that is live when a round
gets at the live state is live until its batch is there.  With the invariant of
`Consistency` the batch has exactly the domains of its level in that plan, and
each collector answers from what that plan asks of its domain.
-/

namespace Cadence

/-- The name of the plan that an open round collects from. -/
def RoundStage.plan? : RoundStage → Option String
  | queued => none
  | collecting plan _ _ => some plan

namespace Engine

variable {e e' : Engine} {id : Nat} {action : EngineAction} {events : List EngineEvent}
variable {r : EngineRound}

def task? (e : Engine) (id : Nat) (domain : String) : Option RoundTask :=
  match e.rounds[id]? with
  | some { stage := .collecting _ _ tasks, .. } => tasks[domain]?
  | _ => none

theorem task?_eq_get? {plan : String} {began : Utc} {tasks : Table String RoundTask}
    (hr : e.rounds.get? id = some r) (hstage : r.stage = .collecting plan began tasks)
    (domain : String) : e.task? id domain = tasks.get? domain := by
  obtain ⟨level, stage⟩ := r
  obtain rfl : stage = .collecting plan began tasks := hstage
  simp [task?, hr]

theorem task?_congr (same : e'.rounds.get? id = e.rounds.get? id) (domain : String) :
    e'.task? id domain = e.task? id domain := by
  simp only [task?, Table.getElem?_eq_get?, same]

theorem task?_of_absent (absent : e.rounds.get? id = none) (domain : String) :
    e.task? id domain = none := by
  simp [task?, absent]

theorem task?_of_queued (hr : e.rounds.get? id = some r)
    (hstage : r.stage = .queued) (domain : String) : e.task? id domain = none := by
  obtain ⟨level, stage⟩ := r
  obtain rfl : stage = .queued := hstage
  simp [task?, hr]

theorem exists_tasks_of_task? {domain : String} {task : RoundTask}
    (hr : e.rounds.get? id = some r) (h : e.task? id domain = some task) :
    ∃ plan began tasks, r.stage = .collecting plan began tasks ∧ tasks.get? domain = some task := by
  cases hstage : r.stage with
  | queued =>
      obtain ⟨level, stage⟩ := r
      obtain rfl : stage = .queued := hstage
      simp [task?, hr] at h
  | collecting plan began tasks => exact ⟨plan, began, tasks, rfl, task?_eq_get? hr hstage domain ▸ h⟩

/-! ## Open rounds -/

theorem inUse_of_open (hr : e.rounds.get? id = some r) (hopen : r.stage.isQueued = false) :
    e.inUse = true :=
  List.any_eq_true.2 ⟨r, Table.mem_values.2 ⟨id, hr⟩, by simp [hopen]⟩

theorem live_of_open (taken : e.step action = some (e', events)) (hr : e.rounds.get? id = some r)
    (hopen : r.stage.isQueued = false) : e'.live = e.live := by
  cases hkind : action.isOfRound with
  | true => exact (round_frame hkind taken).1
  | false =>
      rcases (preparing_frame hkind taken).live with hlive | hfree
      · exact hlive
      · rw [inUse_of_open hr hopen] at hfree
        contradiction

private theorem open_of_insert {k : Nat} {r₀ r₁ r' : EngineRound} (h₀ : e.rounds.get? k = some r₀)
    (hr' : (e.setRound k r₁).rounds.get? id = some r') (hopen : r'.stage.isQueued = false)
    (hlevel : r₁.level = r₀.level) (hopen₀ : r₀.stage.isQueued = false)
    (hplan : r₁.stage.plan? = r₀.stage.plan?) :
    ∃ r, e.rounds.get? id = some r ∧ r.level = r'.level ∧ r.stage.isQueued = false ∧
      r'.stage.plan? = r.stage.plan? := by
  rw [setRound, Table.get?_insert] at hr'
  split at hr'
  · next hid =>
      obtain rfl := Option.some.inj hr'
      exact ⟨r₀, hid ▸ h₀, hlevel.symm, hopen₀, hplan⟩
  · exact ⟨r', hr', rfl, hopen, rfl⟩

private theorem get?_of_erase {k : Nat} {r' : EngineRound}
    (hr' : (e.rounds.erase k).get? id = some r') : e.rounds.get? id = some r' := by
  rw [Table.get?_erase] at hr'
  split at hr'
  · contradiction
  · exact hr'

theorem open_step (taken : e.step action = some (e', events)) {r' : EngineRound}
    (hr' : e'.rounds.get? id = some r') (hopen : r'.stage.isQueued = false) :
    ∃ r, e.rounds.get? id = some r ∧ r.level = r'.level ∧
      (r.stage.isQueued = false ∧ r'.stage.plan? = r.stage.plan? ∨
        ∃ now, action = .enter id now ∧ r'.stage.plan? = some e.livePlanName) := by
  suffices h : (∃ r, e.rounds.get? id = some r ∧ r.level = r'.level ∧ r.stage.isQueued = false ∧
      r'.stage.plan? = r.stage.plan?) ∨
      ∃ r now, e.rounds.get? id = some r ∧ r.level = r'.level ∧ action = .enter id now ∧
        r'.stage.plan? = some e.livePlanName by
    rcases h with ⟨r, hr, hlevel, hwas⟩ | ⟨r, now, hr, hlevel, hnow⟩
    · exact ⟨r, hr, hlevel, Or.inl hwas⟩
    · exact ⟨r, hr, hlevel, Or.inr ⟨now, hnow⟩⟩
  cases hkind : action.isOfRound with
  | false =>
      rw [(preparing_frame hkind taken).rounds] at hr'
      exact Or.inl ⟨r', hr', rfl, hopen, rfl⟩
  | true =>
    cases action with
    | beginCollect level =>
        cases taken
        have hr' : (e.rounds.insert e.nextId { level }).get? id = some r' := hr'
        rw [Table.get?_insert] at hr'
        split at hr'
        · obtain rfl := Option.some.inj hr'
          simp [RoundStage.isQueued] at hopen
        · exact Or.inl ⟨r', hr', rfl, hopen, rfl⟩
    | enter k now =>
        obtain ⟨r, hr, -, -, ⟨-, hnext⟩ | ⟨-, hnext⟩⟩ := enter_eq_some taken
        · cases hnext
          exact Or.inl ⟨r', get?_of_erase hr', rfl, hopen, rfl⟩
        · cases hnext
          have hr' : (e.rounds.insert k _).get? id = some r' := hr'
          rw [Table.get?_insert] at hr'
          split at hr'
          · next hid =>
              obtain rfl := Option.some.inj hr'
              exact Or.inr ⟨r, now, hid ▸ hr, rfl, by rw [hid], rfl⟩
          · exact Or.inl ⟨r', hr', rfl, hopen, rfl⟩
    | startTask k domain =>
        obtain ⟨r, plan, began, tasks, task, hr, hstage, -, -, -, hnext⟩ := startTask_eq_some taken
        cases hnext
        exact Or.inl (open_of_insert hr hr' hopen rfl (by simp [hstage, RoundStage.isQueued])
          (by simp [hstage, RoundStage.plan?]))
    | finishTask k domain result =>
        obtain ⟨r, plan, began, tasks, task, hr, hstage, -, -, -, hnext⟩ := finishTask_eq_some taken
        cases hnext
        exact Or.inl (open_of_insert hr hr' hopen rfl (by simp [hstage, RoundStage.isQueued])
          (by simp [hstage, RoundStage.plan?]))
    | loseTask k domain =>
        obtain ⟨r, plan, began, tasks, task, hr, hstage, -, -, hnext⟩ := loseTask_eq_some taken
        cases hnext
        exact Or.inl (open_of_insert hr hr' hopen rfl (by simp [hstage, RoundStage.isQueued])
          (by simp [hstage, RoundStage.plan?]))
    | close k now =>
        obtain ⟨r, plan, began, tasks, -, -, -, hnext⟩ := close_eq_some taken
        cases hnext
        rw [record_rounds] at hr'
        exact Or.inl ⟨r', get?_of_erase hr', rfl, hopen, rfl⟩
    | dropRound k =>
        cases (step_dropRound_eq_some taken).2
        exact Or.inl ⟨r', get?_of_erase hr', rfl, hopen, rfl⟩
    | _ => contradiction

/-! ## The plan of a round -/

/--
Since a round has got at the live state, the live state is the one it found, and
the round is there with its level.
-/
theorem entered {start : Engine} {steps : List (Step Engine EngineAction EngineEvent)}
    (hstart : start.inUse = false) (run : Run step start steps e) (hr : e.rounds.get? id = some r)
    (hopen : r.stage.isQueued = false) :
    ∃ pre entering rest now, steps = pre ++ entering :: rest ∧ entering.action = .enter id now ∧
      e.live = entering.before.live ∧
      (∃ r₀, entering.before.rounds.get? id = some r₀ ∧ r₀.level = r.level) ∧
      ∀ x ∈ rest, x.before.live = entering.before.live ∧
        ∃ r', x.before.rounds.get? id = some r' ∧ r'.level = r.level := by
  induction run generalizing r with
  | nil =>
      rw [inUse_of_open hr hopen] at hstart
      contradiction
  | @snoc steps e e' action events run taken ih =>
      obtain ⟨r₁, hr₁, hlevel, ⟨hwas, -⟩ | ⟨now, hnow, -⟩⟩ := open_step taken hr hopen
      · obtain ⟨pre, entering, rest, now, rfl, haction, hlive, ⟨r₀, hr₀, hlevel₀⟩, hrest⟩ :=
          ih hr₁ hwas
        refine ⟨pre, entering, rest ++ [⟨e, action, e', events⟩], now, by simp, haction,
          (live_of_open taken hr₁ hwas).trans hlive, ⟨r₀, hr₀, hlevel₀.trans hlevel⟩, ?_⟩
        intro x hx
        rcases List.mem_append.1 hx with hx | hx
        · obtain ⟨hxlive, r', hr', hlevel'⟩ := hrest x hx
          exact ⟨hxlive, r', hr', hlevel'.trans hlevel⟩
        · obtain rfl := List.mem_singleton.1 hx
          exact ⟨hlive, r₁, hr₁, hlevel⟩
      · subst hnow
        exact ⟨steps, ⟨e, .enter id now, e', events⟩, [], now, rfl, rfl,
          (round_frame rfl taken).1, ⟨r₁, hr₁, hlevel⟩, by simp⟩

theorem collected_step {batch : Batch} (taken : e.step action = some (e', events))
    (hbatch : .collected id batch ∈ events) :
    ∃ r now, e.rounds.get? id = some r ∧
      (action = .enter id now ∧ ((e.live.levels.get? r.level).getD ∅).isEmpty = true ∧
          batch = e.emptyBatch r.level now ∨
        ∃ plan began tasks, action = .close id now ∧ r.stage = .collecting plan began tasks ∧
          (∀ domain task, tasks.get? domain = some task → task.result?.isSome = true) ∧
          batch = e.batchOf r.level plan began now tasks) := by
  cases hkind : action.isOfRound with
  | false => exact absurd hbatch ((preparing_frame hkind taken).collected id batch)
  | true =>
    cases action with
    | beginCollect level =>
        cases taken
        simp at hbatch
    | enter k now =>
        obtain ⟨r, hr, -, -, ⟨hempty, hnext⟩ | ⟨-, hnext⟩⟩ := enter_eq_some taken
        · cases hnext
          obtain ⟨rfl, rfl⟩ : id = k ∧ batch = e.emptyBatch r.level now := by simpa using hbatch
          exact ⟨r, now, hr, Or.inl ⟨rfl, hempty, rfl⟩⟩
        · cases hnext
          simp at hbatch
    | startTask k domain =>
        obtain ⟨r, plan, began, tasks, task, -, -, -, -, -, hnext⟩ := startTask_eq_some taken
        cases hnext
        simp at hbatch
    | finishTask k domain result =>
        obtain ⟨r, plan, began, tasks, task, -, -, -, -, -, hnext⟩ := finishTask_eq_some taken
        cases hnext
        simp at hbatch
    | loseTask k domain =>
        obtain ⟨r, plan, began, tasks, task, -, -, -, -, hnext⟩ := loseTask_eq_some taken
        cases hnext
        simp at hbatch
    | close k now =>
        obtain ⟨r, plan, began, tasks, hr, hstage, hended, hnext⟩ := close_eq_some taken
        cases hnext
        obtain ⟨rfl, rfl⟩ : id = k ∧ batch = e.batchOf r.level plan began now tasks := by
          simpa using hbatch
        exact ⟨r, now, hr, Or.inr ⟨plan, began, tasks, rfl, hstage, hended, rfl⟩⟩
    | dropRound k =>
        cases (step_dropRound_eq_some taken).2
        simp at hbatch
    | _ => contradiction

/-! ## What consistency says about a round -/

namespace Consistent

theorem get?_level (h : e.Consistent) (level domain : String) (c : Nat) :
    ((e.live.levels.get? level).getD ∅).get? domain = some c ↔
      (e.live.asks? level domain).isSome = true ∧ e.live.collectors.get? domain = some c := by
  rw [h.fits.levels, LiveState.asks?]
  cases e.live.plan with
  | none => simp
  | some plan =>
      simp only [Option.bind_some, LiveState.get?_levels_ofPlan, Plan.asks?]
      cases hlevel : plan.levelNamed? level with
      | none => simp
      | some l =>
          simp only [Option.map_some, Option.getD_some, Table.get?_filterMap, Option.bind_some,
            Table.getElem?_eq_get?, Option.isSome_map]
          cases l.collect.get? domain <;> simp

theorem isSome_level (h : e.Consistent) (level domain : String) :
    (((e.live.levels.get? level).getD ∅).get? domain).isSome =
      (e.live.asks? level domain).isSome := by
  rw [Bool.eq_iff_iff, Option.isSome_iff_exists]
  constructor
  · rintro ⟨c, hc⟩
    exact ((h.get?_level level domain c).1 hc).1
  · intro hasks
    obtain ⟨plan, hplan, hselected⟩ : ∃ plan, e.live.plan = some plan ∧
        (plan.asks? level domain).isSome = true := by
      cases hplan : e.live.plan with
      | none => simp [LiveState.asks?, hplan] at hasks
      | some plan => exact ⟨plan, rfl, by simpa [LiveState.asks?, hplan] using hasks⟩
    obtain ⟨l, hl, hd⟩ : ∃ l, plan.levelNamed? level = some l ∧ domain ∈ l.collect := by
      cases hl : plan.levelNamed? level with
      | none => simp [Plan.asks?, hl] at hselected
      | some l =>
          have hd : (l.collect.get? domain).isSome = true := by
            simpa [Plan.asks?, hl] using hselected
          exact ⟨l, rfl, hd⟩
    obtain ⟨c, hc⟩ := Table.mem_iff.1
      (h.fits.covers plan hplan domain (Plan.mem_domains_of_levelNamed? hl hd))
    exact ⟨c, (h.get?_level level domain c).2 ⟨hasks, hc⟩⟩

theorem get?_selection (h : e.Consistent) {level domain : String} {c : Nat}
    (hc : ((e.live.levels.get? level).getD ∅).get? domain = some c) :
    (e.selection c).get? level = e.live.asks? level domain := by
  obtain ⟨hasks, hcollector⟩ := (h.get?_level level domain c).1 hc
  cases hplan : e.live.plan with
  | none => simp [LiveState.asks?, hplan] at hasks
  | some plan =>
      simp only [LiveState.asks?, hplan, Option.bind_some, Plan.asks?] at hasks ⊢
      rw [Selection.get?, h.fits.answers plan domain c hplan hcollector]
      cases hl : plan.levelNamed? level with
      | none => simp [hl] at hasks
      | some l =>
          cases hd : l.collect.get? domain with
          | none => simp [hl, hd] at hasks
          | some d => simpa [hd] using Plan.get?_selections hl hd

/-- In an open round each collector answers as the live plan asks, and so it has been asked. -/
theorem task (h : e.Consistent) (hr : e.rounds.get? id = some r) {domain : String}
    {task : RoundTask} (htask : e.task? id domain = some task) :
    (e.selection task.collector).get? r.level = e.live.asks? r.level domain ∧
      (task.Asked → task.selected = e.live.asks? r.level domain) := by
  obtain ⟨plan, began, tasks, hstage, htask⟩ := exists_tasks_of_task? hr htask
  obtain ⟨-, hcollectors, hselected⟩ := h.follows id r hr plan began tasks hstage
  have hc : ((e.live.levels.get? r.level).getD ∅).get? domain = some task.collector := by
    rw [← hcollectors, htask]
    rfl
  have hanswer := h.get?_selection hc
  exact ⟨hanswer, fun hasked => (hselected domain task htask hasked).trans hanswer⟩

end Consistent

/-! ## Batches -/

namespace Consistent

/-- A level without collectors is one for which the live plan asks nothing. -/
theorem isSome_asks?_of_isEmpty (h : e.Consistent) {level : String}
    (hempty : ((e.live.levels.get? level).getD ∅).isEmpty = true) (domain : String) :
    (e.live.asks? level domain).isSome = false := by
  rw [← h.isSome_level, Table.isEmpty_iff.1 hempty]
  rfl

section Ended

variable {r : EngineRound} {plan : String} {began now : Utc} {tasks : Table String RoundTask}

theorem mem_batchOf_iff (h : e.Consistent) (hr : e.rounds.get? id = some r)
    (hstage : r.stage = .collecting plan began tasks)
    (hended : ∀ domain task, tasks.get? domain = some task → task.result?.isSome = true)
    (domain : String) :
    (domain ∈ (e.batchOf r.level plan began now tasks).values ∨
        domain ∈ (e.batchOf r.level plan began now tasks).errors) ↔
      (e.live.asks? r.level domain).isSome = true := by
  obtain ⟨-, hcollectors, -⟩ := h.follows id r hr plan began tasks hstage
  rw [mem_batchOf hended, ← h.isSome_level, ← hcollectors, Option.isSome_map]

/-- The entry of a domain in a batch is what its collector has answered. -/
theorem entry_of_batchOf (h : e.Consistent) (hr : e.rounds.get? id = some r)
    (hstage : r.stage = .collecting plan began tasks)
    (hended : ∀ domain task, tasks.get? domain = some task → task.result?.isSome = true)
    {domain : String}
    (hdomain : domain ∈ (e.batchOf r.level plan began now tasks).values ∨
      domain ∈ (e.batchOf r.level plan began now tasks).errors) :
    ∃ task result, e.task? id domain = some task ∧ task.result? = some result ∧
      (e.batchOf r.level plan began now tasks).values.get? domain = result.values? ∧
      (e.batchOf r.level plan began now tasks).errors.get? domain = result.error? ∧
      (result ≠ .died → task.selected = e.live.asks? r.level domain) := by
  obtain ⟨task, htask⟩ := Option.isSome_iff_exists.1 ((mem_batchOf hended domain).1 hdomain)
  obtain ⟨result, hresult⟩ := Option.isSome_iff_exists.1 (hended domain task htask)
  obtain ⟨hvalues, herrors⟩ := e.get?_batchOf r.level plan began now htask hresult
  have htask? : e.task? id domain = some task := (task?_eq_get? hr hstage domain).trans htask
  refine ⟨task, result, htask?, hresult, hvalues, herrors, fun halive => ?_⟩
  exact (h.task hr htask?).2 (RoundTask.asked_of_result? hresult halive)

end Ended

end Consistent

/--
Whatever else goes on, a batch is that of the plan that was live when its round
got at the live state: it bears the name of that plan and has exactly the domains
of its level there.  As long as the round lasts, the selection of each collector
for that level is what that plan asks of the domain, and from that the collector
has answered.
-/
theorem batch_of_one_plan {settings : EngineSettings} {board : Board}
    {steps : List (Step Engine EngineAction EngineEvent)}
    {closing : Step Engine EngineAction EngineEvent} {last : Engine} {batch : Batch}
    (run : Run step (create settings board) (steps ++ [closing]) last)
    (successive : ∀ x ∈ steps ++ [closing], Successive x)
    (returned : .collected id batch ∈ closing.events) :
    ∃ pre entering rest now, steps ++ [closing] = pre ++ entering :: rest ∧
      entering.action = .enter id now ∧
      (∃ r, entering.before.rounds.get? id = some r ∧ r.level = batch.level) ∧
      batch.plan = (entering.before.live.plan.map (·.name)).getD "" ∧
      (∀ d, (d ∈ batch.values ∨ d ∈ batch.errors) ↔
        (entering.before.live.asks? batch.level d).isSome = true) ∧
      (∀ x ∈ rest, ∀ d task, x.before.task? id d = some task →
        (x.before.selection task.collector).get? batch.level =
          entering.before.live.asks? batch.level d) ∧
      ∀ d, d ∈ batch.values ∨ d ∈ batch.errors → ∃ task result,
        closing.before.task? id d = some task ∧ task.result? = some result ∧
          batch.values.get? d = result.values? ∧ batch.errors.get? d = result.error? ∧
          (result ≠ .died → task.selected = entering.before.live.asks? batch.level d) := by
  obtain ⟨before, taken, rfl⟩ := Run.snoc_iff.1 run
  have hclosing : closing.before.Consistent := consistent_before run successive (by simp)
  obtain ⟨r, now, hr, ⟨haction, hempty, rfl⟩ | ⟨plan, began, tasks, haction, hstage, hended, rfl⟩⟩ :=
    collected_step taken returned
  · -- no collector for this level: the plan asks nothing there, and the batch is empty
    refine ⟨steps, closing, [], now, rfl, haction, ⟨r, hr, rfl⟩, rfl, fun d => ?_, by simp, ?_⟩
    · have hd : (closing.before.live.asks? r.level d).isSome = true ↔ False := by
        simp [hclosing.isSome_asks?_of_isEmpty hempty d]
      exact Iff.trans (by simp [emptyBatch, Batch.empty, Table.mem_iff]) hd.symm
    · simp [emptyBatch, Batch.empty, Table.mem_iff]
  · have hopen : r.stage.isQueued = false := by simp [hstage, RoundStage.isQueued]
    obtain ⟨pre, entering, rest, now', hsteps, hentering, hlive, hlevel, hrest⟩ :=
      entered rfl before hr hopen
    obtain ⟨hplan, -, -⟩ := hclosing.follows id r hr plan began tasks hstage
    refine ⟨pre, entering, rest ++ [closing], now', by simp [hsteps], hentering, hlevel, ?_, ?_, ?_, ?_⟩
    · rw [← hlive]
      exact hplan
    · intro d
      rw [← hlive]
      exact hclosing.mem_batchOf_iff hr hstage hended d
    · intro x hx d task htask
      have hmem : x ∈ steps ++ [closing] := by
        simp only [hsteps, List.append_assoc, List.cons_append]
        exact List.mem_append_right _ (List.mem_cons_of_mem _ hx)
      obtain ⟨hxlive, r', hr', hlevel'⟩ : x.before.live = entering.before.live ∧
          ∃ r', x.before.rounds.get? id = some r' ∧ r'.level = r.level := by
        rcases List.mem_append.1 hx with hx | hx
        · exact hrest x hx
        · obtain rfl := List.mem_singleton.1 hx
          exact ⟨hlive, r, hr, rfl⟩
      have hanswer := ((consistent_before run successive hmem).task hr' htask).1
      rwa [hlevel', hxlive] at hanswer
    · intro d hd
      rw [← hlive]
      exact hclosing.entry_of_batchOf hr hstage hended hd

def onePlan (name metric : String) : Plan :=
  .ofLevels name "inline" (.ofList [("kpi", {
    freq := "1s"
    collect := .ofList [("cpu", { metrics := [metric] })] })])

/-- The second plan fails after the live collector has staged it, while a round collects. -/
def failureInBetween : List EngineAction :=
  [.beginPrepare (onePlan "a" "usage") false, .pinged 0 .answered, .copyLive 0,
    .visit 0 .created false, .collectorPrepared 0 (.prepared false), .conclude 0, .swap 0 .all,
    .cleanUp 0 none, .prune 0, .beginPrepare (onePlan "b" "load") false, .pinged 1 .answered,
    .copyLive 1, .visit 1 .created false, .beginCollect "kpi", .enter 2 .epoch,
    .startTask 2 "cpu", .collectorPrepared 1 (.failed ["refused"]),
    .finishTask 2 "cpu" (.values [])]

def runWithFailure : List (Step Engine EngineAction EngineEvent) × Engine :=
  Run.follow step (create {} ∅) (failureInBetween ++ [.close 2 .epoch])

private theorem runWithFailure_ne_nil : runWithFailure.1 ≠ [] := by
  decide +kernel

theorem batch_of_one_plan_failureInBetween :
    ∃ steps closing last batch, Run step (create {} ∅) (steps ++ [closing]) last ∧
      (∀ x ∈ steps ++ [closing], Successive x) ∧ .collected 2 batch ∈ closing.events ∧
      ∃ entering ∈ steps ++ [closing],
        batch.plan = (entering.before.live.plan.map (·.name)).getD "" ∧
        ∃ task, closing.before.task? 2 "cpu" = some task ∧
          task.selected = entering.before.live.asks? batch.level "cpu" ∧
          task.selected = some { metrics := ["usage"] } := by
  have hrun : Run step (create {} ∅) runWithFailure.1 runWithFailure.2 := Run.of_follow ..
  have hsuccessive : ∀ x ∈ runWithFailure.1, Successive x := by decide +kernel
  have hreturned : .collected 2 { Batch.empty "" "a" "kpi" .epoch with
      values := .ofList [("cpu", [])] } ∈ (runWithFailure.1.getLast runWithFailure_ne_nil).events := by
    decide +kernel
  have hasked : (((runWithFailure.1.getLast runWithFailure_ne_nil).before.task? 2 "cpu").bind
      (·.selected)) = some { metrics := ["usage"] } := by
    decide +kernel
  have hsplit := List.dropLast_concat_getLast runWithFailure_ne_nil
  generalize runWithFailure.1.dropLast = steps at hsplit
  generalize runWithFailure.1.getLast runWithFailure_ne_nil = closing at hreturned hasked hsplit
  rw [← hsplit] at hrun hsuccessive
  obtain ⟨pre, entering, rest, now, hsteps, -, -, hplan, -, -, hentries⟩ :=
    batch_of_one_plan hrun hsuccessive hreturned
  obtain ⟨task, result, htask, -, hvalues, -, hselected⟩ := hentries "cpu" (by decide +kernel)
  have halive : result ≠ .died := by
    rintro rfl
    revert hvalues
    decide +kernel
  rw [htask, Option.bind_some] at hasked
  exact ⟨steps, closing, _, _, hrun, hsuccessive, hreturned, entering, by simp [hsteps], hplan, task,
    htask, hselected halive, hasked⟩

end Engine

end Cadence
