import Cadence.Proofs.Engine.Renumbering
import Cadence.Proofs.Scheduler.Orphans

/-!
# Schedulers without some of their callers

Callers and changes have numbers, which are given in turn.  Leave some callers
out and let the numbers behind them move up: what is left of a scheduler is a
scheduler that works and prepares just as the first one does.  If those callers
ask for nothing but plans that cannot be found, the two go on side by side.
-/

namespace Cadence

/-! ## The parts of a scheduler -/

def RunStage.renumber (f : Nat → Nat) : RunStage → RunStage
  | ticking => ticking
  | joining => joining
  | settling caller => settling (f caller)
  | closing => closing

def SchedulerRun.renumber (f : Nat → Nat) (run : SchedulerRun) : SchedulerRun :=
  { run with stage := run.stage.renumber f }

def CallerStage.renumber (f : Nat → Nat) : CallerStage → CallerStage
  | queued => queued
  | awaiting change => awaiting (f change)

def Caller.renumber (f : Nat → Nat) (c : Caller) : Caller := { c with stage := c.stage.renumber f }

/-- The same action under other numbers of callers and changes. -/
def SchedulerAction.renumber (f : Nat → Nat) : SchedulerAction → SchedulerAction
  | grant caller => grant (f caller)
  | resume caller => resume (f caller)
  | dropCaller caller => dropCaller (f caller)
  | beginChange change => beginChange (f change)
  | reportChange change => reportChange (f change)
  | endChange change => endChange (f change)
  | action => action

def Move.renumber (f : Nat → Nat) : Move → Move
  | act action => act (action.renumber f)
  | post line => post line

/-- The same event under other numbers of callers and changes. -/
def SchedulerEvent.renumber (f : Nat → Nat) : SchedulerEvent → SchedulerEvent
  | returned caller result => returned (f caller) result
  | activated change => activated (f change)
  | changeEnded change outcome => changeEnded (f change) outcome
  | event => event

namespace Scheduler

/-- What a scheduler would be without the callers whose numbers are left out. -/
def spare (ρ : Renumbering) (s : Scheduler) : Scheduler :=
  { s with
    run := s.run.map (·.renumber ρ)
    changes := s.changes.rekey ρ
    latest := s.latest.map ρ
    callers := (s.callers.rekey ρ).map (fun _ c => c.renumber ρ)
    lock := s.lock.filterMap ρ.under?
    nextId := ρ s.nextId }

/-- What comes of a move, without them. -/
def spareNext (ρ : Renumbering) (next : Scheduler × List SchedulerEvent) :
    Scheduler × List SchedulerEvent :=
  (next.1.spare ρ, next.2.map (·.renumber ρ))

variable {ρ : Renumbering} {s s' : Scheduler} {id : Nat} {events : List SchedulerEvent}

/-! ## Ticks and workers -/

section Run

variable (f : Nat → Nat) (run : SchedulerRun) (name : WorkerName) (w : Worker)

@[simp] theorem worker_renumber : (run.renumber f).worker name = run.worker name := by
  cases name <;> rfl

@[simp] theorem setWorker_renumber :
    (run.renumber f).setWorker name w = (run.setWorker name w).renumber f := by
  cases name <;> rfl

@[simp] theorem stage_renumber : (run.renumber f).stage = run.stage.renumber f := rfl

@[simp] theorem renumber_eq_ticking {stage : RunStage} :
    stage.renumber f = .ticking ↔ stage = .ticking := by
  cases stage <;> simp [RunStage.renumber]

@[simp] theorem renumber_eq_joining {stage : RunStage} :
    stage.renumber f = .joining ↔ stage = .joining := by
  cases stage <;> simp [RunStage.renumber]

@[simp] theorem renumber_eq_closing {stage : RunStage} :
    stage.renumber f = .closing ↔ stage = .closing := by
  cases stage <;> simp [RunStage.renumber]

theorem offer_renumber (order : Order) (names : List WorkerName) :
    offer order (run.renumber f) names =
      ((offer order run names).1.renumber f, (offer order run names).2) := by
  induction names generalizing run with
  | nil => rfl
  | cons name rest ih =>
      simp only [offer, worker_renumber, setWorker_renumber, ih]
      split
      · rfl
      · split <;> rfl

variable (ρ s)

theorem spare_setWorker :
    (s.spare ρ).setWorker (run.renumber ρ) name w = (s.setWorker run name w).spare ρ := by
  cases name <;> rfl

theorem spare_rest : (s.spare ρ).rest (run.renumber ρ) name w = (s.rest run name w).spare ρ := by
  cases name <;> rfl

theorem spare_send (order : Order) (batch : Batch) (sinks : List String) :
    (s.spare ρ).send (run.renumber ρ) name w order batch sinks =
      (s.send run name w order batch sinks).spare ρ := by
  unfold send
  split
  · exact spare_rest ..
  · exact spare_setWorker ..

theorem spare_handBatch (round : Nat) (batch : Batch) :
    (s.spare ρ).handBatch (run.renumber ρ) name round batch =
      (s.handBatch run name round batch).map (·.spare ρ) := by
  simp only [handBatch, worker_renumber]
  cases (run.worker name).stage with
  | collecting order r =>
      simp only
      split
      · exact congrArg some (spare_send ..)
      · rfl
  | _ => rfl

theorem spare_roundEnded (round : Nat) (batch : Batch) :
    (s.spare ρ).roundEnded round batch = (s.roundEnded round batch).spare ρ := by
  unfold roundEnded
  cases hrun : s.run with
  | none => simp [spare, hrun]
  | some run =>
      have hspared : (s.spare ρ).run = some (run.renumber ρ) := by simp [spare, hrun]
      simp only [hspared, spare_handBatch]
      cases s.handBatch run .primary round batch with
      | some s' => rfl
      | none => cases s.handBatch run .secondary round batch <;> rfl

variable {ρ s}

theorem spare_withRun {step step' : SchedulerRun → Next}
    (same : ∀ run, step' (run.renumber ρ) = (step run).map (spareNext ρ)) :
    (s.spare ρ).withRun step' = (s.withRun step).map (spareNext ρ) := by
  change (s.run.map _).bind step' = (s.run.bind step).map _
  cases s.run with
  | none => rfl
  | some run => exact same run

theorem spare_guard {c c' : Prop} [Decidable c] [Decidable c'] {next next' : Next} (hc : c' ↔ c)
    (same : next' = next.map (spareNext ρ)) :
    (if c' then next' else none) = (if c then next else none).map (spareNext ρ) := by
  by_cases h : c
  · rw [if_pos h, if_pos (hc.2 h), same]
  · rw [if_neg h, if_neg (mt hc.1 h)]
    rfl

theorem spare_tick : (s.spare ρ).tick = s.tick.map (spareNext ρ) := by
  refine spare_withRun fun run => spare_guard (renumber_eq_ticking ρ) ?_
  have horder : (s.spare ρ).orderAt ((run.renumber ρ).ticks + 1) = s.orderAt (run.ticks + 1) := rfl
  have hoffer (order : Order) :
      offer order { run.renumber ρ with ticks := (run.renumber ρ).ticks + 1 }
          [.primary, .secondary] =
        ((offer order { run with ticks := run.ticks + 1 } [.primary, .secondary]).1.renumber ρ,
          (offer order { run with ticks := run.ticks + 1 } [.primary, .secondary]).2) :=
    offer_renumber ρ { run with ticks := run.ticks + 1 } order _
  simp only [horder, hoffer]
  cases s.orderAt (run.ticks + 1) with
  | none => rfl
  | some order =>
      dsimp only
      rcases offer order { run with ticks := run.ticks + 1 } [.primary, .secondary] with
        ⟨run', _ | name⟩ <;> rfl

theorem spare_takeOrder : (s.spare ρ).takeOrder name = (s.takeOrder name).map (spareNext ρ) := by
  refine spare_withRun fun run => ?_
  simp only [worker_renumber]
  split
  · cases name <;> rfl
  · rfl

theorem spare_delivered : (s.spare ρ).delivered name = (s.delivered name).map (spareNext ρ) := by
  refine spare_withRun fun run => ?_
  simp only [worker_renumber, spare_send]
  split <;> rfl

theorem spare_stopWorker : (s.spare ρ).stopWorker name = (s.stopWorker name).map (spareNext ρ) := by
  refine spare_withRun fun run => ?_
  have stop (t : Scheduler) :
      some ((t.spare ρ).setWorker (run.renumber ρ) name
        { stage := .stopped, idle := false, inbox := none }, []) =
      (some (t.setWorker run name { stage := .stopped, idle := false, inbox := none }, [])).map
        (spareNext ρ) :=
    congrArg (fun later => some (later, [])) (spare_setWorker ρ t run name _)
  simp only [worker_renumber, stage_renumber, renumber_eq_joining]
  cases (run.worker name).stage with
  | collecting order round =>
      exact spare_guard .rfl (stop { s with engine := s.engine.dropRound round })
  | waiting => exact spare_guard .rfl (stop s)
  | sending => exact spare_guard .rfl (stop s)
  | starting => rfl
  | stopped => rfl

/-- What the ticker and the workers do does not depend on who calls. -/
theorem spare_run {action : SchedulerAction} (hkind : action.isOfRun = true) :
    (s.spare ρ).step action = (s.step action).map (spareNext ρ) := by
  cases action with
  | startRun =>
      simp only [step, startRun]
      exact spare_guard (by simp [spare]) rfl
  | requestStop => exact spare_withRun fun _ => rfl
  | tick => exact spare_tick
  | stopTicking =>
      exact spare_withRun fun _ => spare_guard (and_congr_left' (renumber_eq_ticking ρ)) rfl
  | startWorker name =>
      refine spare_withRun fun run => ?_
      simp only [worker_renumber, spare_rest]
      exact spare_guard .rfl rfl
  | takeOrder name => exact spare_takeOrder name
  | delivered name => exact spare_delivered name
  | stopWorker name => exact spare_stopWorker name
  | finishRun => exact spare_withRun fun _ => spare_guard (renumber_eq_closing ρ) rfl
  | _ => contradiction

end Run

/-! ## Events of the engine -/

/-- The numbers of changes and of those who are waited for are kept, and all callers that are left
out ask for plans that cannot be found. -/
structure Kept (ρ : Renumbering) (s : Scheduler) : Prop where
  changes : ∀ k c, s.changes.get? k = some c → ρ.Keeps k
  tracked : ∀ k, s.Tracks k → ρ.Keeps k
  refused : ∀ id c, s.callers.get? id = some c → ¬ ρ.Keeps id →
    ∃ state name e, c.request = .change state name ∧ s.findSorted name = .error e

theorem spare_setChange (hid : ρ.Keeps id) (c : PlanChange) :
    (s.spare ρ).setChange (ρ id) c = (s.setChange id c).spare ρ := by
  simp only [setChange, spare, Table.rekey_insert _ hid]

theorem changeOf?_spare (kept : ∀ k c, s.changes.get? k = some c → ρ.Keeps k) (preparation : Nat) :
    (s.spare ρ).changeOf? preparation =
      (s.changeOf? preparation).map (fun e => (ρ e.1, e.2)) := by
  have hkeys : ∀ k ∈ s.changes, ρ.Keeps k := fun k hk =>
    (Table.mem_iff.1 hk).elim (kept k)
  change (s.changes.rekey ρ).toList.find? _ = _
  rw [Table.toList_rekey hkeys, List.find?_map]
  rfl

theorem spare_react (kept : ∀ k c, s.changes.get? k = some c → ρ.Keeps k) (event : EngineEvent) :
    (s.spare ρ).react event = spareNext ρ (s.react event) := by
  have keeps : ∀ {id c preparation}, s.changeOf? preparation = some (id, c) → ρ.Keeps id :=
    fun hchange => kept _ _ (changeOf?_eq_some hchange).1
  cases event with
  | after preparation =>
      simp only [react, activate, changeOf?_spare kept]
      cases s.changeOf? preparation <;> rfl
  | prepared preparation outcome =>
      simp only [react, preparationEnded, changeOf?_spare kept]
      cases hchange : s.changeOf? preparation with
      | none => rfl
      | some found =>
          simp only [Option.map_some, spare_setChange (keeps hchange)]
          split <;> rfl
  | collected round batch =>
      simp only [react, spare_roundEnded]
      rfl
  | _ => rfl

theorem spare_reactAll (kept : ∀ k c, s.changes.get? k = some c → ρ.Keeps k)
    (raised : List EngineEvent) :
    (s.spare ρ).reactAll raised = spareNext ρ (s.reactAll raised) := by
  induction raised generalizing s with
  | nil => rfl
  | cons event rest ih =>
      have hafter : ∀ k c, (s.react event).1.changes.get? k = some c → ρ.Keeps k := by
        intro k later hlater
        obtain ⟨c, hc, -⟩ := (s.reacted event).carries k later hlater
        exact kept k c hc
      simp only [reactAll, spare_react kept, spareNext, ih hafter, List.map_append]

theorem spare_engineStep (kept : ∀ k c, s.changes.get? k = some c → ρ.Keeps k)
    (inner : EngineAction) :
    (s.spare ρ).engineStep inner = (s.engineStep inner).map (spareNext ρ) := by
  unfold engineStep
  split
  · change (s.engine.step inner).map _ = ((s.engine.step inner).map _).map _
    rw [Option.map_map]
    refine congrArg (Option.map · _) (funext fun next => ?_)
    exact spare_reactAll (s := { s with engine := next.1 }) kept next.2
  · rfl

/-! ## Callers that are kept -/

section Kept

variable (hid : ρ.Keeps id)
include hid

theorem get?_callers_spare :
    (s.spare ρ).callers.get? (ρ id) = (s.callers.get? id).map (·.renumber ρ) := by
  change ((s.callers.rekey ρ).map _).get? _ = _
  rw [Table.get?_map, Table.get?_rekey _ hid]

theorem get?_changes_spare : (s.spare ρ).changes.get? (ρ id) = s.changes.get? id :=
  Table.get?_rekey _ hid

theorem head?_lock_spare (hhead : s.lock.head? = some id) :
    (s.spare ρ).lock.head? = some (ρ id) := by
  obtain ⟨rest, hrest⟩ := List.head?_eq_some_iff.1 hhead
  change (s.lock.filterMap ρ.under?).head? = _
  rw [hrest, List.filterMap_cons_some (Renumbering.under?_of_keeps hid), List.head?_cons]

theorem hasEnded_spare : (s.spare ρ).hasEnded (ρ id) = s.hasEnded id := by
  simp only [hasEnded, Table.getElem?_eq_get?, get?_changes_spare hid]

theorem spare_release : (s.spare ρ).release (ρ id) = (s.release id).spare ρ := by
  have hlock : (s.lock.filter (· ≠ id)).filterMap ρ.under? =
      (s.lock.filterMap ρ.under?).filter (· ≠ ρ id) :=
    Renumbering.filterMap_filter_ne (fun _ => Renumbering.under?_eq_some_apply hid) s.lock
  simp only [release, spare, Table.rekey_erase _ hid, Table.map_erase, hlock]

theorem spare_returns (result : Except PlanError Unit) :
    (s.spare ρ).returns (ρ id) result = spareNext ρ (s.returns id result) := by
  simp only [returns, spare_release hid]
  rfl

theorem spare_closeRun : (s.spare ρ).closeRun (ρ id) = (s.closeRun id).spare ρ := by
  have hrun : (s.spare ρ).run.map (fun run => { run with stage := .closing }) =
      (s.run.map (fun run => { run with stage := .closing })).map (·.renumber ρ) := by
    change (s.run.map (·.renumber ρ)).map _ = _
    cases s.run <;> rfl
  rw [closeRun, spare_release hid, hrun]
  rfl

theorem spare_await (request : ChangeRequest) (change : Nat) :
    (s.spare ρ).await (ρ id) request (ρ change) = (s.await id request change).spare ρ := by
  simp only [await, spare, Table.rekey_insert _ hid, Table.map_insert]
  rfl

theorem spare_cancelChange : (s.spare ρ).cancelChange (ρ id) = (s.cancelChange id).spare ρ := by
  have hengine : ∀ t : Scheduler, (t.spare ρ).engine = t.engine := fun _ => rfl
  simp only [cancelChange, Table.getElem?_eq_get?, get?_changes_spare hid]
  cases s.changes.get? id with
  | none => rfl
  | some c =>
      obtain ⟨plan, levels, state, cancelled, stage⟩ := c
      simp only [spare_setChange hid, hengine]
      cases stage with
      | applying preparation =>
          simp only
          generalize s.setChange id _ = cancelled
          cases cancelled.engine.cancelPreparation preparation <;> rfl
      | _ => rfl

theorem spare_takeOver : (s.spare ρ).takeOver (ρ id) = (s.takeOver id).spare ρ :=
  spare_cancelChange (s := { s with latest := none }) hid

theorem spare_accept (hnew : ρ.Keeps s.nextId) (state : InstanceState) (plan : Plan)
    (levels : List SortedLevel) :
    (s.spare ρ).accept (ρ id) state plan levels = spareNext ρ (s.accept id state plan levels) := by
  have hchange := spare_setChange (s := s) hnew { plan, levels, state }
  have hnextId : (s.spare ρ).nextId = ρ s.nextId := rfl
  rw [accept, accept, ← spare_returns hid, hnextId, hchange, ← Renumbering.apply_succ hnew]
  rfl

end Kept

theorem spare_call (hnew : ρ.Keeps s.nextId) (request : ChangeRequest) :
    (s.spare ρ).call request = (s.call request).spare ρ := by
  have hlock : (s.lock ++ [s.nextId]).filterMap ρ.under? =
      s.lock.filterMap ρ.under? ++ [ρ s.nextId] := by
    rw [List.filterMap_append, List.filterMap_cons_some (Renumbering.under?_of_keeps hnew),
      List.filterMap_nil]
  simp only [call, spare, Table.rekey_insert _ hnew, Table.map_insert, hlock,
    Renumbering.apply_succ hnew]
  rfl

/-- Whoever gets the lock gets it without the others as well, and maybe sooner. -/
theorem grant_spare (hid : ρ.Keeps id) (kept : s.Kept ρ)
    (fresh : s.nextId < s'.nextId → ρ.Keeps s.nextId) (taken : s.grant id = some (s', events)) :
    (s.spare ρ).grant (ρ id) = some (spareNext ρ (s', events)) := by
  obtain ⟨hhead, request, hcaller, hcases⟩ := grant_eq_some taken
  have hcaller' : (s.spare ρ).callers.get? (ρ id) = some { request, stage := .queued } := by
    rw [get?_callers_spare hid, hcaller]
    rfl
  have hfound' : ∀ name, (s.spare ρ).findSorted name = s.findSorted name := fun _ => rfl
  have hlatest' : (s.spare ρ).latest = s.latest.map ρ := rfl
  simp only [grant, if_pos (head?_lock_spare hid hhead), Table.getElem?_eq_get?, hcaller', hfound',
    hlatest']
  obtain ⟨state, name, e, rfl, hfound, hnext⟩ | ⟨state, name, levels, plan, rfl, hfound, hlatest,
    hnext⟩ | ⟨change, hrequest, hlatest, hfound, hnext⟩ | ⟨rfl, hlatest, hnext⟩ |
    ⟨change, rfl, hlatest, hnext⟩ | ⟨rfl, hlatest, hnext⟩ := hcases
  · simp only [hfound, hnext, spare_returns hid]
  · have hnew : ρ.Keeps s.nextId := fresh (by cases hnext; exact Nat.lt_succ_self _)
    simp only [hfound, hlatest, Option.map_none, hnext, spare_accept hid hnew]
  · have hchange := kept.tracked change (.inl hlatest)
    have hawait : ((s.spare ρ).takeOver (ρ change)).await (ρ id) request (ρ change) =
        ((s.takeOver change).await id request change).spare ρ := by
      rw [spare_takeOver hchange, spare_await hid]
    cases request with
    | change state name =>
        obtain ⟨⟨levels, plan⟩, hfound⟩ := hfound state name rfl
        simp only [hfound, hlatest, Option.map_some, hawait, hnext]
        rfl
    | wait => contradiction
    | shutdown =>
        simp only [hlatest, Option.map_some, hawait, hnext]
        rfl
  · simp only [hlatest, Option.map_none, hnext, spare_returns hid]
  · simp only [hlatest, Option.map_some, hnext, spare_await hid]
    rfl
  · simp only [hlatest, Option.map_none, hnext, spare_closeRun hid]
    rfl

theorem resume_spare (hid : ρ.Keeps id) (kept : s.Kept ρ)
    (fresh : s.nextId < s'.nextId → ρ.Keeps s.nextId) (taken : s.resume id = some (s', events)) :
    (s.spare ρ).resume (ρ id) = some (spareNext ρ (s', events)) := by
  obtain ⟨request, change, hcaller, hended, hcases⟩ := resume_eq_some taken
  have hchange := kept.tracked change (.inr ⟨id, request, hcaller⟩)
  have hcaller' : (s.spare ρ).callers.get? (ρ id) =
      some { request, stage := .awaiting (ρ change) } := by
    rw [get?_callers_spare hid, hcaller]
    rfl
  have hfound' : ∀ name, (s.spare ρ).findSorted name = s.findSorted name := fun _ => rfl
  simp only [resume, Table.getElem?_eq_get?, hcaller', hasEnded_spare hchange, hended, if_true,
    hfound']
  obtain ⟨state, name, e, rfl, hfound, hnext⟩ | ⟨state, name, levels, plan, rfl, hfound, hnext⟩ |
    ⟨rfl, hnext⟩ | ⟨rfl, hnext⟩ := hcases
  · simp only [hfound, hnext, spare_returns hid]
  · have hnew : ρ.Keeps s.nextId := fresh (by cases hnext; exact Nat.lt_succ_self _)
    simp only [hfound, hnext, spare_accept hid hnew]
  · rw [hnext]
    exact congrArg some (spare_returns (s := { s with latest := none }) hid _)
  · rw [hnext, spare_closeRun hid]
    rfl

theorem dropCaller_spare (hid : ρ.Keeps id) (taken : s.dropCaller id = some (s', events)) :
    (s.spare ρ).dropCaller (ρ id) = some (spareNext ρ (s', events)) := by
  obtain ⟨⟨request, stage⟩, hcaller, hrequest, hnext⟩ := dropCaller_eq_some taken
  have hcaller' : (s.spare ρ).callers.get? (ρ id) =
      some { request, stage := stage.renumber ρ } := by
    rw [get?_callers_spare hid, hcaller]
    rfl
  simp only [dropCaller, Table.getElem?_eq_get?, hcaller', hnext, spare_release hid]
  cases request with
  | shutdown => contradiction
  | _ => rfl

theorem beginChange_spare (hid : ρ.Keeps id) (taken : s.beginChange id = some (s', events)) :
    (s.spare ρ).beginChange (ρ id) = some (spareNext ρ (s', events)) := by
  obtain ⟨c, hc, hspawned, hnext⟩ := beginChange_eq_some taken
  simp only [beginChange, Table.getElem?_eq_get?, get?_changes_spare hid, hc, Option.bind_some,
    if_pos hspawned, hnext]
  exact congrArg (fun later => some (later, []))
    (spare_setChange (s := { s.say (changingText c.plan.name c.state) with
      engine := (s.say (changingText c.plan.name c.state)).engine.beginPrepare c.plan c.cancelled })
      hid _)

theorem reportChange_spare (hid : ρ.Keeps id) (taken : s.reportChange id = some (s', events)) :
    (s.spare ρ).reportChange (ρ id) = some (spareNext ρ (s', events)) := by
  obtain ⟨c, hc, hnext⟩ := Option.bind_eq_some_iff.1 taken
  simp only [reportChange, Table.getElem?_eq_get?, get?_changes_spare hid]
  rw [Table.getElem?_eq_get?] at hc
  simp only [hc, Option.bind_some]
  split at hnext
  · next outcome hstage =>
      cases outcome with
      | ready =>
          cases hnext
          exact congrArg (fun later => some (later, []))
            (spare_setChange (s := s.say (activeText c.plan.name c.state)) hid _)
      | failed chain =>
          cases hnext
          exact congrArg (fun later => some (later, []))
            (spare_setChange (s := s.say (failedText c.plan.name chain)) hid _)
      | cancelled =>
          cases hnext
          exact congrArg (fun later => some (later, [])) (spare_setChange hid _)
      | panicked =>
          cases hnext
          exact congrArg (fun later => some (later, [])) (spare_setChange hid _)
  · contradiction

theorem endChange_spare (hid : ρ.Keeps id) (taken : s.endChange id = some (s', events)) :
    (s.spare ρ).endChange (ρ id) = some (spareNext ρ (s', events)) := by
  obtain ⟨c, outcome, hc, hstage, hnext⟩ := endChange_eq_some taken
  simp only [endChange, Table.getElem?_eq_get?, get?_changes_spare hid, hc, Option.bind_some, hstage,
    spare_setChange hid, hnext]
  rfl

theorem spare_join (hnew : ρ.Keeps s.nextId) :
    (s.spare ρ).join = s.join.map (spareNext ρ) := by
  refine spare_withRun fun run => spare_guard (and_congr_left' (renumber_eq_joining ρ)) ?_
  exact congrArg (fun later => some (later, []))
    (spare_call (s := { s with run := some { run with stage := .settling s.nextId } }) hnew _)

/-! ## Callers that are left out -/

theorem spare_call_of_omitted (hnew : ¬ ρ.Keeps s.nextId) (request : ChangeRequest) :
    (s.call request).spare ρ = s.spare ρ := by
  have hcallers : (s.callers.insert s.nextId { request }).rekey ρ = s.callers.rekey ρ := by
    refine Table.rekey_congr fun n hn => ?_
    rw [Table.get?_insert, if_neg (fun same : n = s.nextId => hnew (same ▸ hn))]
  have hlock : (s.lock ++ [s.nextId]).filterMap ρ.under? = s.lock.filterMap ρ.under? := by
    rw [List.filterMap_append, List.filterMap_cons_none (Renumbering.under?_of_not hnew),
      List.filterMap_nil, List.append_nil]
  simp only [call, spare, hcallers, hlock, Renumbering.apply_succ_of_omitted hnew]

theorem spare_release_of_omitted (hid : ¬ ρ.Keeps id) : (s.release id).spare ρ = s.spare ρ := by
  have hcallers : (s.callers.erase id).rekey ρ = s.callers.rekey ρ := by
    refine Table.rekey_congr fun n hn => ?_
    rw [Table.get?_erase, if_neg (fun same : n = id => hid (same ▸ hn))]
  have hlock : (s.lock.filter (· ≠ id)).filterMap ρ.under? = s.lock.filterMap ρ.under? := by
    rw [List.filterMap_filter]
    refine List.filterMap_congr fun n _ => ?_
    by_cases hn : n = id
    · simp [hn, Renumbering.under?_of_not hid]
    · simp [hn]
  simp only [release, spare, hcallers, hlock]

/-- The caller, if any, whose call goes on. -/
def caller? (s : Scheduler) : Move → Option Nat
  | .act (.call _) => some s.nextId
  | .act (.grant caller) | .act (.resume caller) | .act (.dropCaller caller) => some caller
  | _ => none

variable {action : Move}

/-- Only callers, their queue and the next number differ. -/
def SameButCallers (s s' : Scheduler) : Prop :=
  s' = { s with callers := s'.callers, lock := s'.lock, nextId := s'.nextId }

/-- Whoever asks for a plan that cannot be found is turned away, whatever is in flight. -/
theorem spare_of_omitted (kept : s.Kept ρ) (queued : s.Queued)
    (taken : s.move action = some (s', events)) (hcaller : s.caller? action = some id)
    (hid : ¬ ρ.Keeps id) :
    s'.spare ρ = s.spare ρ ∧ SameButCallers s s' ∧
      ∀ event ∈ events, ∃ e, event = .returned id (.error e) := by
  cases action with
  | post => contradiction
  | act action =>
      cases action with
      | call request =>
          obtain rfl := Option.some.inj hcaller
          obtain ⟨-, ⟨⟩⟩ := call_eq_some taken
          exact ⟨spare_call_of_omitted hid request, rfl, by simp⟩
      | grant caller =>
          obtain rfl := Option.some.inj hcaller
          obtain ⟨-, request, hasking, hcases⟩ := grant_eq_some taken
          obtain ⟨state, name, e, rfl, he⟩ := kept.refused _ _ hasking hid
          obtain ⟨_, _, e, ⟨⟩, -, hnext⟩ | ⟨_, _, _, _, ⟨⟩, hfound, -⟩ | ⟨_, -, -, hfound, -⟩ |
            ⟨hrequest, -⟩ | ⟨_, hrequest, -⟩ | ⟨hrequest, -⟩ := hcases
          · cases hnext
            exact ⟨spare_release_of_omitted hid, rfl, by simp⟩
          · simp [he] at hfound
          · obtain ⟨_, hfound⟩ := hfound state name rfl
            simp [he] at hfound
          all_goals contradiction
      | resume caller =>
          obtain rfl := Option.some.inj hcaller
          obtain ⟨request, change, hasking, -⟩ := resume_eq_some taken
          obtain ⟨state, name, e, rfl, he⟩ := kept.refused _ _ hasking hid
          obtain ⟨_, hfound⟩ := queued.found _ _ _ _ hasking
          simp [he] at hfound
      | dropCaller caller =>
          obtain rfl := Option.some.inj hcaller
          obtain ⟨asking, -, -, hnext⟩ := dropCaller_eq_some taken
          cases hnext
          exact ⟨spare_release_of_omitted hid, rfl, by simp⟩
      | _ => contradiction

/-- Without them everything else is done just the same. -/
theorem move_spare (kept : s.Kept ρ) (taken : s.move action = some (s', events))
    (hcaller : ∀ id, s.caller? action = some id → ρ.Keeps id)
    (fresh : s.nextId < s'.nextId → ρ.Keeps s.nextId) :
    (s.spare ρ).move (action.renumber ρ) = some (spareNext ρ (s', events)) := by
  cases action with
  | post line =>
      cases taken
      rfl
  | act action =>
      cases hkind : action.isOfRun with
      | true =>
          have hsame : action.renumber ρ = action := by cases action <;> first | rfl | contradiction
          change (s.spare ρ).step (action.renumber ρ) = _
          change s.step action = _ at taken
          rw [hsame, spare_run hkind, taken]
          rfl
      | false =>
          cases action with
          | engine inner =>
              change s.engineStep inner = _ at taken
              change (s.spare ρ).engineStep inner = _
              rw [spare_engineStep kept.changes, taken]
              rfl
          | grant caller => exact grant_spare (hcaller caller rfl) kept fresh taken
          | resume caller => exact resume_spare (hcaller caller rfl) kept fresh taken
          | dropCaller caller => exact dropCaller_spare (hcaller caller rfl) taken
          | beginChange change =>
              obtain ⟨c, hc, -⟩ := beginChange_eq_some taken
              exact beginChange_spare (kept.changes change c hc) taken
          | reportChange change =>
              obtain ⟨c, outcome, board, hc, -⟩ := reportChange_eq_some taken
              exact reportChange_spare (kept.changes change c hc) taken
          | endChange change =>
              obtain ⟨c, outcome, hc, -⟩ := endChange_eq_some taken
              exact endChange_spare (kept.changes change c hc) taken
          | join =>
              have hgrows : s.nextId < s'.nextId := by
                obtain ⟨run, -, -, -, -, ⟨⟩⟩ := join_eq_some taken
                exact Nat.lt_succ_self _
              change (s.spare ρ).join = _
              change s.join = _ at taken
              rw [spare_join (fresh hgrows), taken]
              rfl
          | call request =>
              obtain ⟨hrequest, ⟨⟩⟩ := call_eq_some taken
              change (if request = .shutdown then none else
                some ((s.spare ρ).call request, [])) = _
              rw [if_neg hrequest, spare_call (hcaller s.nextId rfl)]
              rfl
          | pause =>
              cases taken
              rfl
          | _ => contradiction

/-! ## Runs without them -/

variable {y : Step Scheduler Move SchedulerEvent} {history : History} {start last : Scheduler}

/-- A number that is left out is given to somebody only who asks for a plan that cannot be found. -/
def Fits (ρ : Renumbering) (y : Step Scheduler Move SchedulerEvent) : Prop :=
  y.before.nextId < y.after.nextId → ¬ ρ.Keeps y.before.nextId →
    ∃ state name e, y.action = .act (.call (.change state name)) ∧
      y.before.findSorted name = .error e

/-- The step of a caller who is left out is not made. -/
def spareStep? (ρ : Renumbering) (y : Step Scheduler Move SchedulerEvent) :
    Option (Step Scheduler Move SchedulerEvent) :=
  if ∃ id, y.before.caller? y.action = some id ∧ ¬ ρ.Keeps id then none
  else some ⟨y.before.spare ρ, y.action.renumber ρ, y.after.spare ρ,
    y.events.map (·.renumber ρ)⟩

theorem spareStep?_of_omitted (hcaller : y.before.caller? y.action = some id)
    (hid : ¬ ρ.Keeps id) : spareStep? ρ y = none :=
  if_pos ⟨id, hcaller, hid⟩

theorem spareStep?_of_kept (hcaller : ∀ id, y.before.caller? y.action = some id → ρ.Keeps id) :
    spareStep? ρ y = some ⟨y.before.spare ρ, y.action.renumber ρ, y.after.spare ρ,
      y.events.map (·.renumber ρ)⟩ :=
  if_neg fun ⟨id, hid, hnot⟩ => hnot (hcaller id hid)

theorem Kept.move (kept : y.before.Kept ρ) (linked : y.before.Linked) (queued : y.before.Queued)
    (taken : y.before.move y.action = some (y.after, y.events)) (fits : Fits ρ y) :
    y.after.Kept ρ := by
  have hmoved := moved taken
  have called : ∀ {request}, y.action = .act (.call request) → y.after = y.before.call request := by
    intro request haction
    rw [haction] at taken
    exact congrArg Prod.fst (call_eq_some taken).2
  refine ⟨fun k later hlater => ?_, fun k tracks => ?_, fun id later hlater hid => ?_⟩
  · rcases hmoved.changes k later hlater with ⟨c, hc, -⟩ | ⟨rfl, caller, accepts, -⟩
    · exact kept.changes k c hc
    · -- whoever gets a number that is left out calls, and no call accepts a change
      by_contra hnew
      obtain ⟨state, name, e, haction, -⟩ := fits ((linked.move taken).changes _ _ hlater) hnew
      rcases accepts.1 with hgrant | hresume
      · simp [haction] at hgrant
      · simp [haction] at hresume
  · rcases serves_or_proceeds linked taken with serves | proceeds
    · rcases serves.tracks_before queued tracks with before | ⟨rfl, hnext⟩
      · exact kept.tracked k before
      · -- nor does a call make anybody wait
        by_contra hnew
        obtain ⟨state, name, e, haction, -⟩ := fits (by omega) hnew
        have hafter := called haction
        refine hnew (kept.tracked _ (tracks.imp (fun hlatest => ?_) ?_))
        · rwa [hafter] at hlatest
        · rintro ⟨caller, request, awaits⟩
          exact ⟨caller, request, (queued.awaits_call (congrArg callers hafter)).1 awaits⟩
    · exact kept.tracked k (proceeds.tracks_iff.1 tracks)
  · rcases hmoved.callers id later hlater with ⟨c, hc, hrequest⟩ | ⟨rfl, -⟩
    · obtain ⟨state, name, e, hasked, he⟩ := kept.refused id c hc hid
      exact ⟨state, name, e, hrequest ▸ hasked, (findSorted_congr (fixed_of_move taken) name).trans he⟩
    · have hlt := (queued.move linked taken).callers _ _ hlater
      obtain ⟨state, name, e, haction, he⟩ := fits hlt hid
      have hafter := called haction
      rw [hafter] at hlater
      obtain rfl := Option.some.inj ((Table.get?_insert_self ..).symm.trans hlater)
      exact ⟨state, name, e, rfl, (findSorted_congr (fixed_of_move taken) name).trans he⟩

theorem fresh_of_fits (fits : Fits ρ y)
    (hcaller : ∀ id, y.before.caller? y.action = some id → ρ.Keeps id)
    (hgrows : y.before.nextId < y.after.nextId) : ρ.Keeps y.before.nextId := by
  by_contra hnew
  obtain ⟨state, name, e, haction, -⟩ := fits hgrows hnew
  exact hnew (hcaller _ (by rw [haction]; rfl))

/-- What is left of a run is a run, in which everybody else is served just the same. -/
theorem run_spare (run : Run move start history last) (fits : ∀ y ∈ history, Fits ρ y)
    (kept : start.Kept ρ) (linked : start.Linked) (queued : start.Queued) :
    last.Kept ρ ∧ last.Queued ∧
      Run move (start.spare ρ) (history.filterMap (spareStep? ρ)) (last.spare ρ) := by
  induction run with
  | nil => exact ⟨kept, queued, .nil⟩
  | @snoc history s s' action events run taken ih =>
      obtain ⟨kept, queued, spared⟩ := ih fun y hy => fits y (List.mem_append_left _ hy)
      have linked := linked_of_run linked run
      have hfits := fits ⟨s, action, s', events⟩ (List.mem_append_right _ List.mem_cons_self)
      refine ⟨kept.move linked queued taken hfits, queued.move linked taken, ?_⟩
      rw [List.filterMap_append]
      by_cases homitted : ∃ id, s.caller? action = some id ∧ ¬ ρ.Keeps id
      · obtain ⟨id, hcaller, hid⟩ := homitted
        rw [List.filterMap_cons_none (spareStep?_of_omitted hcaller hid), List.filterMap_nil,
          List.append_nil, (spare_of_omitted kept queued taken hcaller hid).1]
        exact spared
      · have hcaller : ∀ id, s.caller? action = some id → ρ.Keeps id := fun id hid =>
          Classical.not_not.1 fun hnot => homitted ⟨id, hid, hnot⟩
        rw [List.filterMap_cons_some (spareStep?_of_kept hcaller), List.filterMap_nil]
        exact spared.snoc (move_spare kept taken hcaller (fresh_of_fits hfits hcaller))

theorem kept_create (settings : SchedulerSettings) (engine : Engine) (store : PlanStore)
    (sinks : List String) : (create settings engine store sinks).Kept ρ := by
  refine ⟨?_, ?_, ?_⟩ <;> simp [create, say, setStatus, Tracks, Awaits]

theorem spare_create (settings : SchedulerSettings) (engine : Engine) (store : PlanStore)
    (sinks : List String) :
    (create settings engine store sinks).spare ρ = create settings engine store sinks := by
  change { create settings engine store sinks with nextId := ρ 0, .. } = _
  rw [Renumbering.apply_zero]
  rfl

end Scheduler

end Cadence
