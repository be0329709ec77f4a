import Cadence.Scheduler.Step
import Cadence.Table.Lemmas

/-!
# What each action of the scheduler does

A scheduler has two halves.  Its run and its engine do the work; what it has
scheduled, the changes of plan and those who ask for them control the work.  Most
actions leave the second half alone.
-/

namespace Cadence

namespace Scheduler

/-- The half of a scheduler that says what is to be collected and who may change it. -/
structure Control where
  active : Active
  paused : Bool
  changing : Bool
  changes : Table Nat PlanChange
  latest : Option Nat
  callers : Table Nat Caller
  lock : List Nat
  nextId : Nat

def control (s : Scheduler) : Control where
  active := s.active
  paused := s.paused
  changing := s.changing
  changes := s.changes
  latest := s.latest
  callers := s.callers
  lock := s.lock
  nextId := s.nextId

variable {s s' : Scheduler} {id : Nat} {next : Scheduler × List SchedulerEvent}
  {events : List SchedulerEvent}

@[simp] theorem control_setWorker (run : SchedulerRun) (name : WorkerName) (w : Worker) :
    (s.setWorker run name w).control = s.control := rfl

@[simp] theorem control_rest (run : SchedulerRun) (name : WorkerName) (w : Worker) :
    (s.rest run name w).control = s.control := rfl

@[simp] theorem control_send (run : SchedulerRun) (name : WorkerName) (w : Worker) (order : Order)
    (batch : Batch) (sinks : List String) :
    (s.send run name w order batch sinks).control = s.control := by
  unfold send
  split <;> rfl

theorem withRun_eq_some {step : SchedulerRun → Next} :
    s.withRun step = some next ↔ ∃ run, s.run = some run ∧ step run = some next :=
  Option.bind_eq_some_iff

@[simp] theorem control_await (caller : Nat) (request : ChangeRequest) (change : Nat) :
    (s.await caller request change).control = { s.control with
      callers := s.callers.insert caller { request, stage := .awaiting change } } := rfl

@[simp] theorem control_takeOver (change : Nat) :
    (s.takeOver change).control = { s.control with
      changes := s.changes.modify change (fun c => { c with cancelled := true })
      latest := none } := by
  unfold takeOver cancelChange Table.modify
  simp only [Table.getElem?_eq_get?]
  cases s.changes.get? change with
  | none => rfl
  | some c =>
      simp only [setChange]
      split
      · split <;> rfl
      · rfl

/-! ## Ticks and workers -/

theorem tick_eq_some (h : s.tick = some next) :
    ∃ run, s.run = some run ∧ run.stage = .ticking ∧
      ((s.orderAt (run.ticks + 1) = none ∧
          next = ({ s with run := some { run with ticks := run.ticks + 1 } }, [])) ∨
        ∃ order, s.orderAt (run.ticks + 1) = some order ∧
          ((∃ run' name, offer order { run with ticks := run.ticks + 1 } [.primary, .secondary] =
              (run', some name) ∧
            next = ({ s with run := some run' }, [.handed name order])) ∨
          ∃ run', offer order { run with ticks := run.ticks + 1 } [.primary, .secondary] =
              (run', none) ∧
            next = ({ s with run := some run', dropped := s.dropped + 1 },
              [.droppedTick run'.ticks]))) := by
  obtain ⟨run, hrun, hnext⟩ := withRun_eq_some.1 h
  split at hnext
  · next hticking =>
      refine ⟨run, hrun, hticking, ?_⟩
      simp only at hnext
      split at hnext
      · next hnone => exact .inl ⟨hnone, (Option.some.inj hnext).symm⟩
      · next order horder =>
          refine .inr ⟨order, horder, ?_⟩
          split at hnext
          · next run' name hoffer => exact .inl ⟨run', name, hoffer, (Option.some.inj hnext).symm⟩
          · next run' hoffer => exact .inr ⟨run', hoffer, (Option.some.inj hnext).symm⟩
  · contradiction

theorem startRun_eq_some (h : s.startRun = some next) :
    s.run = none ∧ next = ({ s with run := some {} }, []) := by
  unfold startRun at h
  split at h
  · next hnone => exact ⟨Option.isNone_iff_eq_none.1 hnone, (Option.some.inj h).symm⟩
  · contradiction

theorem requestStop_eq_some (h : s.requestStop = some next) :
    ∃ run, s.run = some run ∧
      next = ({ s with run := some { run with stopping := true } }, []) := by
  obtain ⟨run, hrun, hnext⟩ := withRun_eq_some.1 h
  exact ⟨run, hrun, (Option.some.inj hnext).symm⟩

theorem stopTicking_eq_some (h : s.stopTicking = some next) :
    ∃ run, s.run = some run ∧ run.stage = .ticking ∧ run.stopping = true ∧
      next = ({ s with run := some { run with stage := .joining } }, []) := by
  obtain ⟨run, hrun, hnext⟩ := withRun_eq_some.1 h
  split at hnext
  · next hstop => exact ⟨run, hrun, hstop.1, hstop.2, (Option.some.inj hnext).symm⟩
  · contradiction

theorem startWorker_eq_some {name : WorkerName} (h : s.startWorker name = some next) :
    ∃ run, s.run = some run ∧ (run.worker name).stage = .starting ∧
      next = (s.rest run name (run.worker name), []) := by
  obtain ⟨run, hrun, hnext⟩ := withRun_eq_some.1 h
  simp only at hnext
  split at hnext
  · next hstarting => exact ⟨run, hrun, hstarting, (Option.some.inj hnext).symm⟩
  · contradiction

theorem takeOrder_eq_some {name : WorkerName} (h : s.takeOrder name = some next) :
    ∃ run order, s.run = some run ∧ (run.worker name).stage = .waiting ∧
      (run.worker name).inbox = some order ∧
      next = (({ s.setStatus (workerKey name) s!"collecting plan {order.plan} level {order.level}" with
        engine := (s.setStatus (workerKey name)
          s!"collecting plan {order.plan} level {order.level}").engine.beginCollect order.level
        }).setWorker run name { run.worker name with
          stage := .collecting order (s.setStatus (workerKey name)
            s!"collecting plan {order.plan} level {order.level}").engine.nextId
          inbox := none }, []) := by
  obtain ⟨run, hrun, hnext⟩ := withRun_eq_some.1 h
  simp only at hnext
  split at hnext
  · next order hstage hinbox => exact ⟨run, order, hrun, hstage, hinbox, (Option.some.inj hnext).symm⟩
  · contradiction

theorem delivered_eq_some {name : WorkerName} (h : s.delivered name = some next) :
    ∃ run order batch sink sinks, s.run = some run ∧
      (run.worker name).stage = .sending order batch (sink :: sinks) ∧
      next = (s.send run name (run.worker name) order batch sinks,
        [.delivered name sink batch]) := by
  obtain ⟨run, hrun, hnext⟩ := withRun_eq_some.1 h
  simp only at hnext
  split at hnext
  · next order batch sink sinks hstage =>
      exact ⟨run, order, batch, sink, sinks, hrun, hstage, (Option.some.inj hnext).symm⟩
  · contradiction

def leaving (s : Scheduler) (w : Worker) : Scheduler :=
  match w.stage with
  | .collecting _ round => { s with engine := s.engine.dropRound round }
  | _ => s

theorem stopWorker_eq_some {name : WorkerName} (h : s.stopWorker name = some next) :
    ∃ run, s.run = some run ∧
      (run.stopping = true ∨ run.stage = .joining ∧ (run.worker name).stage = .waiting ∧
        (run.worker name).inbox = none) ∧
      (run.worker name).stage ≠ .starting ∧ (run.worker name).stage ≠ .stopped ∧
      next = ((s.leaving (run.worker name)).setWorker run name
        { stage := .stopped, idle := false, inbox := none }, []) := by
  obtain ⟨run, hrun, hnext⟩ := withRun_eq_some.1 h
  simp only at hnext
  split at hnext
  · next round hstage =>
      split at hnext
      · next hstopping =>
          refine ⟨run, hrun, .inl hstopping, by simp [hstage], by simp [hstage], ?_⟩
          rw [leaving, hstage]
          exact (Option.some.inj hnext).symm
      · contradiction
  · next hstage =>
      split at hnext
      · next hmay =>
          refine ⟨run, hrun, ?_, by simp [hstage], by simp [hstage], ?_⟩
          · simp only [Bool.or_eq_true, Bool.and_eq_true, decide_eq_true_eq,
              Option.isNone_iff_eq_none] at hmay
            exact hmay.imp id fun ⟨hjoining, hinbox⟩ => ⟨hjoining, hstage, hinbox⟩
          · rw [leaving, hstage]
            exact (Option.some.inj hnext).symm
      · contradiction
  · next hstage =>
      split at hnext
      · next hstopping =>
          refine ⟨run, hrun, .inl hstopping, by simp [hstage], by simp [hstage], ?_⟩
          rw [leaving, hstage]
          exact (Option.some.inj hnext).symm
      · contradiction
  · contradiction
  · contradiction

/-! ## Callers and changes -/

/-- A caller whose turn it is gets its answer, has a change accepted, or waits for an earlier one,
which it ends unless it only came to wait. -/
theorem grant_eq_some (h : s.grant id = some next) :
    s.lock.head? = some id ∧ ∃ request, s.callers.get? id = some { request, stage := .queued } ∧
      ((∃ state name e, request = .change state name ∧ s.findSorted name = .error e ∧
          next = s.returns id (.error e)) ∨
        (∃ state name levels plan, request = .change state name ∧
          s.findSorted name = .ok (levels, plan) ∧ s.latest = none ∧
          next = s.accept id state plan levels) ∨
        (∃ change, request ≠ .wait ∧ s.latest = some change ∧
          (∀ state name, request = .change state name → ∃ found, s.findSorted name = .ok found) ∧
          next = ((s.takeOver change).await id request change, [])) ∨
        (request = .wait ∧ s.latest = none ∧ next = s.returns id (.ok ())) ∨
        (∃ change, request = .wait ∧ s.latest = some change ∧
          next = (s.await id request change, [])) ∨
        (request = .shutdown ∧ s.latest = none ∧ next = (s.closeRun id, []))) := by
  unfold grant at h
  split at h
  · next hturn =>
      refine ⟨hturn, ?_⟩
      split at h
      · next request hcaller =>
          refine ⟨request, hcaller, ?_⟩
          split at h
          · next state name =>
              split at h
              · next e he => exact .inl ⟨state, name, e, rfl, he, (Option.some.inj h).symm⟩
              · next levels plan hfound =>
                  split at h
                  · next hlatest =>
                      exact .inr (.inl ⟨state, name, levels, plan, rfl, hfound, hlatest,
                        (Option.some.inj h).symm⟩)
                  · next change hlatest =>
                      refine .inr (.inr (.inl ⟨change, by simp, hlatest, ?_,
                        (Option.some.inj h).symm⟩))
                      rintro _ _ ⟨⟩
                      exact ⟨_, hfound⟩
          · split at h
            · next hlatest =>
                exact .inr (.inr (.inr (.inl ⟨rfl, hlatest, (Option.some.inj h).symm⟩)))
            · next change hlatest =>
                exact .inr (.inr (.inr (.inr (.inl ⟨change, rfl, hlatest,
                  (Option.some.inj h).symm⟩))))
          · split at h
            · next hlatest =>
                exact .inr (.inr (.inr (.inr (.inr ⟨rfl, hlatest, (Option.some.inj h).symm⟩))))
            · next change hlatest =>
                exact .inr (.inr (.inl ⟨change, by simp, hlatest, by simp,
                  (Option.some.inj h).symm⟩))
      · contradiction
  · contradiction

theorem resume_eq_some (h : s.resume id = some next) :
    ∃ request change, s.callers.get? id = some { request, stage := .awaiting change } ∧
      s.hasEnded change = true ∧
      ((∃ state name e, request = .change state name ∧ s.findSorted name = .error e ∧
          next = s.returns id (.error e)) ∨
        (∃ state name levels plan, request = .change state name ∧
          s.findSorted name = .ok (levels, plan) ∧ next = s.accept id state plan levels) ∨
        (request = .wait ∧ next = { s with latest := none }.returns id (.ok ())) ∨
        (request = .shutdown ∧ next = (s.closeRun id, []))) := by
  unfold resume at h
  split at h
  · next request change hcaller =>
      split at h
      · next hended =>
          refine ⟨request, change, hcaller, hended, ?_⟩
          split at h
          · next state name =>
              split at h
              · next e he => exact .inl ⟨state, name, e, rfl, he, (Option.some.inj h).symm⟩
              · next levels plan hfound =>
                  exact .inr (.inl ⟨state, name, levels, plan, rfl, hfound,
                    (Option.some.inj h).symm⟩)
          · exact .inr (.inr (.inl ⟨rfl, (Option.some.inj h).symm⟩))
          · exact .inr (.inr (.inr ⟨rfl, (Option.some.inj h).symm⟩))
      · contradiction
  · contradiction

theorem dropCaller_eq_some (h : s.dropCaller id = some next) :
    ∃ caller, s.callers.get? id = some caller ∧ caller.request ≠ .shutdown ∧
      next = (s.release id, []) := by
  unfold dropCaller at h
  split at h
  · next hcaller => exact ⟨_, hcaller, by simp, (Option.some.inj h).symm⟩
  · next hcaller => exact ⟨_, hcaller, by simp, (Option.some.inj h).symm⟩
  · contradiction

theorem beginChange_eq_some (h : s.beginChange id = some next) :
    ∃ c, s.changes.get? id = some c ∧ c.stage = .spawned ∧
      next = ({ s.say (changingText c.plan.name c.state) with
        engine := (s.say (changingText c.plan.name c.state)).engine.beginPrepare c.plan c.cancelled
        }.setChange id { c with
          stage := .applying (s.say (changingText c.plan.name c.state)).engine.nextId }, []) := by
  obtain ⟨c, hc, hnext⟩ := Option.bind_eq_some_iff.1 h
  split at hnext
  · next hspawned => exact ⟨c, hc, hspawned, (Option.some.inj hnext).symm⟩
  · contradiction

theorem reportChange_eq_some (h : s.reportChange id = some next) :
    ∃ c outcome board, s.changes.get? id = some c ∧ c.stage = .finishing outcome false ∧
      next = ({ s with engine := { s.engine with board } }.setChange id
        { c with stage := .finishing outcome true }, []) := by
  obtain ⟨c, hc, hnext⟩ := Option.bind_eq_some_iff.1 h
  split at hnext
  · next outcome hstage =>
      cases outcome <;>
        exact ⟨c, _, _, hc, hstage, (Option.some.inj hnext).symm⟩
  · contradiction

theorem endChange_eq_some (h : s.endChange id = some next) :
    ∃ c outcome, s.changes.get? id = some c ∧ c.stage = .finishing outcome true ∧
      next = ({ s.setChange id { c with stage := .ended } with changing := false },
        [.changeEnded id outcome]) := by
  obtain ⟨c, hc, hnext⟩ := Option.bind_eq_some_iff.1 h
  split at hnext
  · next outcome hstage => exact ⟨c, outcome, hc, hstage, (Option.some.inj hnext).symm⟩
  · contradiction

theorem finishRun_eq_some (h : s.finishRun = some next) :
    ∃ run, s.run = some run ∧ run.stage = .closing ∧
      next = ({ s with run := none }.say "stopped", [.stopped]) := by
  obtain ⟨run, hrun, hnext⟩ := withRun_eq_some.1 h
  split at hnext
  · next hclosing => exact ⟨run, hrun, hclosing, (Option.some.inj hnext).symm⟩
  · contradiction

theorem join_eq_some (h : s.join = some next) :
    ∃ run, s.run = some run ∧ run.stage = .joining ∧ run.primary.stage = .stopped ∧
      run.secondary.stage = .stopped ∧
      next = ({ s with run := some { run with stage := .settling s.nextId } }.call .shutdown,
        []) := by
  obtain ⟨run, hrun, hnext⟩ := withRun_eq_some.1 h
  split at hnext
  · next hdone =>
      exact ⟨run, hrun, hdone.1, hdone.2.1, hdone.2.2, (Option.some.inj hnext).symm⟩
  · contradiction

theorem call_eq_some {request : ChangeRequest} (h : s.step (.call request) = some next) :
    request ≠ .shutdown ∧ next = (s.call request, []) := by
  rw [step] at h
  split at h
  · contradiction
  · next hrequest => exact ⟨hrequest, (Option.some.inj h).symm⟩

theorem engineStep_eq_some {action : EngineAction} (h : s.engineStep action = some next) :
    action.isInner = true ∧ ∃ engine inner, s.engine.step action = some (engine, inner) ∧
      next = { s with engine }.reactAll inner := by
  unfold engineStep at h
  split at h
  · next hinner =>
      obtain ⟨⟨engine, inner⟩, hstep, rfl⟩ := Option.map_eq_some_iff.1 h
      exact ⟨hinner, engine, inner, hstep, rfl⟩
  · contradiction

theorem changeOf?_eq_some {preparation : Nat} {c : PlanChange}
    (h : s.changeOf? preparation = some (id, c)) :
    s.changes.get? id = some c ∧ c.stage = .applying preparation := by
  have hmem := List.mem_of_find?_eq_some h
  have hstage := List.find?_some h
  exact ⟨Table.get?_eq_some_iff.2 hmem, by simpa using hstage⟩

theorem control_handBatch {run : SchedulerRun} {name : WorkerName} {round : Nat} {batch : Batch}
    (h : s.handBatch run name round batch = some s') : s'.control = s.control := by
  unfold handBatch at h
  simp only at h
  split at h
  · split at h
    · obtain rfl := Option.some.inj h
      exact control_send ..
    · contradiction
  · contradiction

@[simp] theorem control_roundEnded (round : Nat) (batch : Batch) :
    (s.roundEnded round batch).control = s.control := by
  unfold roundEnded
  split
  · rfl
  · next run _ =>
      cases hprimary : s.handBatch run .primary round batch with
      | some s' => exact control_handBatch hprimary
      | none =>
          cases hsecondary : s.handBatch run .secondary round batch with
          | some s' => exact control_handBatch hsecondary
          | none => rfl

/-- An event of the engine concerns a round, or makes the levels of a change the ones that are
scheduled, or ends the preparation of a change and, if it has panicked, the task. -/
theorem react_cases (event : EngineEvent) :
    ((s.react event).1.control = s.control ∧ (s.react event).2 = [.engine event]) ∨
      (∃ id c preparation, event = .after preparation ∧ s.changeOf? preparation = some (id, c) ∧
        (s.react event) = ({ s with
          active := { levels := c.levels, state := some c.state, plan := c.plan.name }
          paused := false }, [.engine event, .activated id])) ∨
      ∃ id c preparation outcome, event = .prepared preparation outcome ∧
        s.changeOf? preparation = some (id, c) ∧
        (outcome = .panicked ∧ s.react event = (s.setChange id { c with stage := .ended },
            [.engine event, .changeEnded id outcome]) ∨
          outcome ≠ .panicked ∧ s.react event =
            (s.setChange id { c with stage := .finishing outcome false }, [.engine event])) := by
  cases event with
  | after preparation =>
      cases hchange : s.changeOf? preparation with
      | none => exact .inl (by simp [react, activate, hchange])
      | some found =>
          exact .inr (.inl ⟨found.1, found.2, preparation, rfl, hchange, by
            simp [react, activate, hchange]⟩)
  | prepared preparation outcome =>
      cases hchange : s.changeOf? preparation with
      | none => exact .inl (by simp [react, preparationEnded, hchange])
      | some found =>
          refine .inr (.inr ⟨found.1, found.2, preparation, outcome, rfl, hchange, ?_⟩)
          by_cases hpanicked : outcome = .panicked
          · exact .inl ⟨hpanicked, by simp [react, preparationEnded, hchange, hpanicked]⟩
          · exact .inr ⟨hpanicked, by simp [react, preparationEnded, hchange, hpanicked]⟩
  | collected round batch => exact .inl ⟨control_roundEnded .., rfl⟩
  | _ => exact .inl ⟨rfl, rfl⟩

end Scheduler

def SchedulerAction.isOfRun : SchedulerAction → Bool
  | startRun | requestStop | tick | stopTicking | startWorker _ | takeOrder _ | delivered _
  | stopWorker _ | finishRun => true
  | _ => false

def SchedulerEvent.isOfRun : SchedulerEvent → Bool
  | handed .. | droppedTick _ | delivered .. | stopped => true
  | _ => false

def SchedulerEvent.isInner : SchedulerEvent → Bool
  | engine _ | activated _ | changeEnded .. => true
  | _ => false

namespace Scheduler

variable {s s' : Scheduler} {id : Nat} {next : Scheduler × List SchedulerEvent}
  {events : List SchedulerEvent}

/-- Ticks and workers leave control alone. -/
theorem run_frame {action : SchedulerAction} (hkind : action.isOfRun = true)
    (taken : s.step action = some (s', events)) :
    s'.control = s.control ∧ ∀ e ∈ events, e.isOfRun = true := by
  cases action with
  | startRun =>
      obtain ⟨-, ⟨⟩⟩ := startRun_eq_some taken
      exact ⟨rfl, by simp⟩
  | requestStop =>
      obtain ⟨run, -, ⟨⟩⟩ := requestStop_eq_some taken
      exact ⟨rfl, by simp⟩
  | tick =>
      obtain ⟨run, -, -, ⟨-, ⟨⟩⟩ | ⟨order, -, ⟨run', name, -, ⟨⟩⟩ | ⟨run', -, ⟨⟩⟩⟩⟩ :=
        tick_eq_some taken
      · exact ⟨rfl, by simp⟩
      · exact ⟨rfl, by simp [SchedulerEvent.isOfRun]⟩
      · exact ⟨rfl, by simp [SchedulerEvent.isOfRun]⟩
  | stopTicking =>
      obtain ⟨run, -, -, -, ⟨⟩⟩ := stopTicking_eq_some taken
      exact ⟨rfl, by simp⟩
  | startWorker name =>
      obtain ⟨run, -, -, ⟨⟩⟩ := startWorker_eq_some taken
      exact ⟨control_rest .., by simp⟩
  | takeOrder name =>
      obtain ⟨run, order, -, -, -, ⟨⟩⟩ := takeOrder_eq_some taken
      exact ⟨rfl, by simp⟩
  | delivered name =>
      obtain ⟨run, order, batch, sink, sinks, -, -, ⟨⟩⟩ := delivered_eq_some taken
      exact ⟨control_send .., by simp [SchedulerEvent.isOfRun]⟩
  | stopWorker name =>
      obtain ⟨run, -, -, -, -, ⟨⟩⟩ := stopWorker_eq_some taken
      refine ⟨?_, by simp⟩
      rw [control_setWorker, leaving]
      split <;> rfl
  | finishRun =>
      obtain ⟨run, -, -, ⟨⟩⟩ := finishRun_eq_some taken
      exact ⟨rfl, by simp [SchedulerEvent.isOfRun]⟩
  | _ => contradiction

theorem isInner_of_react (event : EngineEvent) : ∀ e ∈ (s.react event).2, e.isInner = true := by
  obtain ⟨-, hevents⟩ | ⟨id, c, preparation, -, -, hreact⟩ |
    ⟨id, c, preparation, outcome, -, -, ⟨-, hreact⟩ | ⟨-, hreact⟩⟩ := s.react_cases event
  · simp [hevents, SchedulerEvent.isInner]
  · simp [hreact, SchedulerEvent.isInner]
  · simp [hreact, SchedulerEvent.isInner]
  · simp [hreact, SchedulerEvent.isInner]

theorem isInner_of_reactAll (raised : List EngineEvent) :
    ∀ e ∈ (s.reactAll raised).2, e.isInner = true := by
  induction raised generalizing s with
  | nil => simp [reactAll]
  | cons event rest ih =>
      exact fun e he => (List.mem_append.1 he).elim (isInner_of_react event e) (ih e)

theorem handed_of_step {action : SchedulerAction} {name : WorkerName} {order : Order}
    (taken : s.step action = some (s', events)) (handed : .handed name order ∈ events) :
    action = .tick ∧ ∃ run, s.run = some run ∧ s.orderAt (run.ticks + 1) = some order := by
  cases action with
  | tick =>
      obtain ⟨run, hrun, -, ⟨-, ⟨⟩⟩ | ⟨order', horder, ⟨run', name', -, ⟨⟩⟩ | ⟨run', -, ⟨⟩⟩⟩⟩ :=
        tick_eq_some taken
      · simp at handed
      · obtain ⟨rfl, rfl⟩ : name = name' ∧ order = order' := by simpa using handed
        exact ⟨rfl, run, hrun, horder⟩
      · simp at handed
  | engine inner =>
      obtain ⟨-, engine, raised, -, hnext⟩ := engineStep_eq_some taken
      have hinner := isInner_of_reactAll (s := { s with engine }) raised
      rw [← hnext] at hinner
      exact absurd (hinner _ handed) Bool.false_ne_true
  | startRun =>
      obtain ⟨-, ⟨⟩⟩ := startRun_eq_some taken
      simp at handed
  | requestStop =>
      obtain ⟨run, -, ⟨⟩⟩ := requestStop_eq_some taken
      simp at handed
  | stopTicking =>
      obtain ⟨run, -, -, -, ⟨⟩⟩ := stopTicking_eq_some taken
      simp at handed
  | startWorker name =>
      obtain ⟨run, -, -, ⟨⟩⟩ := startWorker_eq_some taken
      simp at handed
  | takeOrder name =>
      obtain ⟨run, order, -, -, -, ⟨⟩⟩ := takeOrder_eq_some taken
      simp at handed
  | delivered name =>
      obtain ⟨run, order, batch, sink, sinks, -, -, ⟨⟩⟩ := delivered_eq_some taken
      simp at handed
  | stopWorker name =>
      obtain ⟨run, -, -, -, -, ⟨⟩⟩ := stopWorker_eq_some taken
      simp at handed
  | finishRun =>
      obtain ⟨run, -, -, ⟨⟩⟩ := finishRun_eq_some taken
      simp at handed
  | join =>
      obtain ⟨run, -, -, -, -, ⟨⟩⟩ := join_eq_some taken
      simp at handed
  | call request =>
      obtain ⟨-, ⟨⟩⟩ := call_eq_some taken
      simp at handed
  | grant caller =>
      obtain ⟨-, request, -, hcases⟩ := grant_eq_some taken
      obtain ⟨_, _, _, -, -, ⟨⟩⟩ | ⟨_, _, _, _, -, -, -, ⟨⟩⟩ | ⟨_, -, -, -, ⟨⟩⟩ | ⟨-, -, ⟨⟩⟩ |
        ⟨_, -, -, ⟨⟩⟩ | ⟨-, -, ⟨⟩⟩ := hcases <;> simp at handed
  | resume caller =>
      obtain ⟨request, change, -, -, hcases⟩ := resume_eq_some taken
      obtain ⟨_, _, _, -, -, ⟨⟩⟩ | ⟨_, _, _, _, -, -, ⟨⟩⟩ | ⟨-, ⟨⟩⟩ | ⟨-, ⟨⟩⟩ := hcases <;>
        simp at handed
  | dropCaller caller =>
      obtain ⟨asking, -, -, ⟨⟩⟩ := dropCaller_eq_some taken
      simp at handed
  | beginChange change =>
      obtain ⟨c, -, -, ⟨⟩⟩ := beginChange_eq_some taken
      simp at handed
  | reportChange change =>
      obtain ⟨c, outcome, board, -, -, ⟨⟩⟩ := reportChange_eq_some taken
      simp at handed
  | endChange change =>
      obtain ⟨c, outcome, -, -, ⟨⟩⟩ := endChange_eq_some taken
      simp at handed
  | pause =>
      cases taken
      simp at handed

end Scheduler

end Cadence
