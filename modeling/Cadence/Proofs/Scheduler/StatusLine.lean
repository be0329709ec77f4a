import Cadence.Proofs.Engine.Recording
import Cadence.Proofs.Scheduler.Driving
import Cadence.Proofs.Scheduler.Orphans

/-!
# What the line of the scheduler says

On the board the scheduler has one line of its own.  A run that ends leaves it
saying so; from then on only a pause changes it, or a change of plan that is
begun or has ended.  So a scheduler whose run has given the lock back is at rest
until it is disturbed, and one that is disturbed after its run is over shows it.
-/

namespace Cadence

namespace Engine

variable {e e' : Engine} {action : EngineAction} {events : List EngineEvent} {key : String}

/-- A step writes on the board the line of the engine and those of the domains. -/
theorem get?_board_of_step (hstatus : key ≠ statusKey) (herror : ∀ d, key ≠ errorKey d)
    (taken : e.step action = some (e', events)) : e'.board.get? key = e.board.get? key := by
  cases hkind : action.isOfRound with
  | false =>
      rcases (preparing_frame hkind taken).board with hboard | ⟨text, hboard⟩
      · rw [hboard]
      · rw [hboard]
        exact (Table.get?_insert ..).trans (if_neg hstatus)
  | true => exact get?_board_of_round herror hkind taken

end Engine

namespace Scheduler

variable {s s' : Scheduler} {action : Move} {events : List SchedulerEvent} {k : Nat}
  {y : Step Scheduler Move SchedulerEvent}

theorem status_setStatus (key text : String) :
    (s.setStatus key text).status = if statusKey = key then text else s.status := by
  simp only [status, setStatus, Board.get?, Board.set, Table.getElem?_eq_get?, Table.get?_insert]
  split <;> rfl

@[simp] theorem status_say (text : String) : (s.say text).status = text := by
  rw [say, status_setStatus, if_pos rfl]

theorem statusKey_ne_workerKey (name : WorkerName) : statusKey ≠ workerKey name := by
  cases name <;> decide

/-- The engine leaves the line of the scheduler alone. -/
theorem status_of_step {inner : EngineAction} {engine : Engine} {raised : List EngineEvent}
    (h : s.engine.step inner = some (engine, raised)) :
    ({ s with engine } : Scheduler).status = s.status := by
  have hstatus : statusKey ≠ Engine.statusKey := by decide
  have herror : ∀ d, statusKey ≠ Engine.errorKey d := by
    intro d hsame
    have hfirst := congrArg (·.toList.head?) hsame
    simp [statusKey, Engine.errorKey] at hfirst
  exact congrArg (Option.getD · "") (Engine.get?_board_of_step hstatus herror h)

@[simp] theorem status_send (run : SchedulerRun) (name : WorkerName) (w : Worker) (order : Order)
    (batch : Batch) (sinks : List String) :
    (s.send run name w order batch sinks).status = s.status := by
  unfold send
  split
  · exact (status_setStatus ..).trans (if_neg (statusKey_ne_workerKey name))
  · rfl

@[simp] theorem status_roundEnded (round : Nat) (batch : Batch) :
    (s.roundEnded round batch).status = s.status := by
  rcases s.roundEnded_eq round batch with ⟨run, name, order, -, -, hsame⟩ | ⟨-, hsame⟩
  · rw [hsame, status_send]
  · rw [hsame]

/-! ## The texts -/

theorem changingText_ne_stopped (plan : String) (state : InstanceState) :
    changingText plan state ≠ "stopped" := by
  intro h
  change "changing plan to " ++ plan ++ " (" ++ state.text ++ ")" = "stopped" at h
  have hfirst := congrArg (·.toList.head?) h
  simp at hfirst

theorem activeText_ne_stopped (plan : String) (state : InstanceState) :
    activeText plan state ≠ "stopped" := by
  intro h
  change "plan " ++ plan ++ " (" ++ state.text ++ ")" = "stopped" at h
  have hfirst := congrArg (·.toList.head?) h
  simp at hfirst

theorem failedText_ne_stopped (plan : String) (chain : ErrorChain) :
    failedText plan chain ≠ "stopped" := by
  intro h
  change "plan " ++ plan ++ " failed: " ++ chain.joined = "stopped" at h
  have hfirst := congrArg (·.toList.head?) h
  simp at hfirst

/-! ## Moves -/

/-- What becomes of the line of the scheduler in a move. -/
inductive Speaks (s s' : Scheduler) (events : List SchedulerEvent) : Move → Prop
  | silent {action : Move} : s'.status = s.status → .stopped ∉ events → action ≠ .act .pause →
      (∀ change, action ≠ .act (.beginChange change)) → Speaks s s' events action
  | stops : s'.status = "stopped" → .stopped ∈ events → Speaks s s' events (.act .finishRun)
  | pauses : s'.status ≠ "stopped" → .stopped ∉ events → Speaks s s' events (.act .pause)
  | begins {change : Nat} : s'.status ≠ "stopped" → .stopped ∉ events → s.InFlight change →
      Speaks s s' events (.act (.beginChange change))
  | reports {change : Nat} : s'.status ≠ "stopped" → .stopped ∉ events → s.InFlight change →
      Speaks s s' events (.act (.reportChange change))

theorem status_react (event : EngineEvent) : (s.react event).1.status = s.status := by
  cases event with
  | after preparation =>
      simp only [react, activate]
      split <;> rfl
  | prepared preparation outcome =>
      simp only [react, preparationEnded]
      split
      · rfl
      · split <;> rfl
  | collected round batch => exact status_roundEnded ..
  | _ => rfl

theorem status_reactAll (raised : List EngineEvent) : (s.reactAll raised).1.status = s.status := by
  induction raised generalizing s with
  | nil => rfl
  | cons event rest ih => exact ih.trans (s.status_react event)

theorem speaks_engine {inner : EngineAction} (taken : s.engineStep inner = some (s', events)) :
    Speaks s s' events (.act (.engine inner)) := by
  obtain ⟨-, engine, raised, hstep, hnext⟩ := engineStep_eq_some taken
  obtain ⟨rfl, rfl⟩ := Prod.mk.inj hnext
  refine .silent ((status_reactAll raised).trans (status_of_step hstep)) (fun hstopped => ?_)
    (by simp) (by simp)
  exact Bool.false_ne_true (isInner_of_reactAll raised _ hstopped)

theorem speaks_of_run {action : SchedulerAction} (hkind : action.isOfRun = true)
    (taken : s.step action = some (s', events)) : Speaks s s' events (.act action) := by
  have silent (hsame : s'.status = s.status) (hgoing : .stopped ∉ events) :
      Speaks s s' events (.act action) := by
    refine .silent hsame hgoing ?_ ?_
    · rintro ⟨⟩
      contradiction
    · rintro change ⟨⟩
      contradiction
  have worker (t : Scheduler) (name : WorkerName) (text : String) :
      (t.setStatus (workerKey name) text).status = t.status :=
    (status_setStatus ..).trans (if_neg (statusKey_ne_workerKey name))
  cases action with
  | startRun =>
      obtain ⟨-, ⟨⟩⟩ := startRun_eq_some taken
      exact silent rfl (by simp)
  | requestStop =>
      obtain ⟨run, -, ⟨⟩⟩ := requestStop_eq_some taken
      exact silent rfl (by simp)
  | tick =>
      obtain ⟨run, -, -, ⟨-, ⟨⟩⟩ | ⟨order, -, ⟨run', name, -, ⟨⟩⟩ | ⟨run', -, ⟨⟩⟩⟩⟩ :=
        tick_eq_some taken <;> exact silent rfl (by simp)
  | stopTicking =>
      obtain ⟨run, -, -, -, ⟨⟩⟩ := stopTicking_eq_some taken
      exact silent rfl (by simp)
  | startWorker name =>
      obtain ⟨run, -, -, ⟨⟩⟩ := startWorker_eq_some taken
      exact silent (worker _ name _) (by simp)
  | takeOrder name =>
      obtain ⟨run, order, -, -, -, ⟨⟩⟩ := takeOrder_eq_some taken
      exact silent (worker s name _) (by simp)
  | delivered name =>
      obtain ⟨run, order, batch, sink, sinks, -, -, ⟨⟩⟩ := delivered_eq_some taken
      exact silent (status_send ..) (by simp)
  | stopWorker name =>
      obtain ⟨run, -, -, -, -, ⟨⟩⟩ := stopWorker_eq_some taken
      refine silent ?_ (by simp)
      change (s.leaving (run.worker name)).status = s.status
      unfold leaving
      split <;> rfl
  | finishRun =>
      obtain ⟨run, -, -, ⟨⟩⟩ := finishRun_eq_some taken
      exact .stops (status_say _) (by simp)
  | _ => contradiction

theorem status_takeOver (change : Nat) : (s.takeOver change).status = s.status := by
  simp only [status, engine_takeOver]

/-- The task of a change tells how it has ended, but not that it was cancelled. -/
theorem speaks_reportChange {change : Nat} (taken : s.reportChange change = some (s', events)) :
    Speaks s s' events (.act (.reportChange change)) := by
  obtain ⟨c, hc, hnext⟩ := Option.bind_eq_some_iff.1 taken
  split at hnext
  · next outcome hstage =>
      have hflight : s.InFlight change := ⟨c, hc, by simp [hstage]⟩
      cases outcome with
      | ready =>
          cases hnext
          exact .reports ((status_say _).trans_ne (activeText_ne_stopped _ _)) (by simp) hflight
      | failed chain =>
          cases hnext
          exact .reports ((status_say _).trans_ne (failedText_ne_stopped _ _)) (by simp) hflight
      | cancelled =>
          cases hnext
          exact .silent rfl (by simp) (by simp) (by simp)
      | panicked =>
          cases hnext
          exact .silent rfl (by simp) (by simp) (by simp)
  · contradiction

theorem speaks_of_move (taken : s.move action = some (s', events)) : Speaks s s' events action := by
  cases action with
  | post line =>
      cases taken
      exact .silent ((status_setStatus ..).trans (if_neg (by decide))) (by simp) (by simp) (by simp)
  | act action =>
      cases hkind : action.isOfRun with
      | true => exact speaks_of_run hkind taken
      | false =>
          cases action with
          | engine inner => exact speaks_engine taken
          | grant caller =>
              obtain ⟨-, request, -, hcases⟩ := grant_eq_some taken
              obtain ⟨_, _, _, -, -, ⟨⟩⟩ | ⟨_, _, _, _, -, -, -, ⟨⟩⟩ | ⟨change, -, -, -, ⟨⟩⟩ |
                ⟨-, -, ⟨⟩⟩ | ⟨_, -, -, ⟨⟩⟩ | ⟨-, -, ⟨⟩⟩ := hcases
              · exact .silent rfl (by simp) (by simp) (by simp)
              · exact .silent rfl (by simp) (by simp) (by simp)
              · exact .silent (status_takeOver change) (by simp) (by simp) (by simp)
              · exact .silent rfl (by simp) (by simp) (by simp)
              · exact .silent rfl (by simp) (by simp) (by simp)
              · exact .silent rfl (by simp) (by simp) (by simp)
          | resume caller =>
              obtain ⟨request, change, -, -, hcases⟩ := resume_eq_some taken
              obtain ⟨_, _, _, -, -, ⟨⟩⟩ | ⟨_, _, _, _, -, -, ⟨⟩⟩ | ⟨-, ⟨⟩⟩ | ⟨-, ⟨⟩⟩ := hcases <;>
                exact .silent rfl (by simp) (by simp) (by simp)
          | beginChange change =>
              obtain ⟨c, hc, hspawned, ⟨⟩⟩ := beginChange_eq_some taken
              have hstep : (s.say (changingText c.plan.name c.state)).engine.step
                  (.beginPrepare c.plan c.cancelled) = some (_, []) := rfl
              refine .begins ?_ (by simp) ⟨c, hc, by simp [hspawned]⟩
              refine Eq.trans_ne ?_ (changingText_ne_stopped c.plan.name c.state)
              exact (status_of_step hstep).trans (status_say _)
          | reportChange change => exact speaks_reportChange taken
          | endChange change =>
              obtain ⟨c, outcome, -, -, ⟨⟩⟩ := endChange_eq_some taken
              exact .silent rfl (by simp) (by simp) (by simp)
          | join =>
              obtain ⟨run, -, -, -, -, ⟨⟩⟩ := join_eq_some taken
              exact .silent rfl (by simp) (by simp) (by simp)
          | call request =>
              obtain ⟨-, ⟨⟩⟩ := call_eq_some taken
              exact .silent rfl (by simp) (by simp) (by simp)
          | dropCaller caller =>
              obtain ⟨asking, -, -, ⟨⟩⟩ := dropCaller_eq_some taken
              exact .silent rfl (by simp) (by simp) (by simp)
          | pause =>
              cases taken
              exact .pauses ((status_say _).trans_ne (by decide)) (by simp)
          | _ => contradiction

/-! ## At rest -/

/-- No change is in flight, and the line says that the run is over, or the run is about to say so. -/
structure Resting (s : Scheduler) : Prop where
  idle : ∀ k, ¬ s.InFlight k
  line : s.status = "stopped" ∨ s.Closing

/-- The line says something else, or a change is about to change it. -/
def Restless (s : Scheduler) : Prop :=
  s.status ≠ "stopped" ∨ ∃ k c, s.changes.get? k = some c ∧ c.stage = .spawned

/-- A change is accepted, or collection is paused. -/
def Disturbs (y : Step Scheduler Move SchedulerEvent) : Prop :=
  (∃ k, ¬ y.before.InFlight k ∧ y.after.InFlight k) ∨ y.action = .act .pause

/-- Nothing gets in flight unless a call returns. -/
theorem inFlight_of_silent (linked : s.Linked) (taken : s.move action = some (s', []))
    (hflight : s'.InFlight k) : s.InFlight k := by
  rcases inFlight_of_move (y := ⟨s, action, s', []⟩) linked taken hflight with hbefore |
    ⟨a, haccepted, -⟩
  · exact hbefore
  · simp [acceptance?, own] at haccepted

/-- A change waits until its task begins. -/
theorem spawned_of_move (linked : s.Linked) (taken : s.move action = some (s', events))
    {c : PlanChange} (hc : s.changes.get? k = some c) (hspawned : c.stage = .spawned) :
    (∃ later, s'.changes.get? k = some later ∧ later.stage = .spawned) ∨
      action = .act (.beginChange k) := by
  rcases serves_or_proceeds linked taken with serves | proceeds
  · obtain ⟨later, hlater, -, hstage⟩ := stands_of_serves linked serves hc
    exact .inl ⟨later, hlater, hstage.trans hspawned⟩
  · have kept (hchanges : s'.changes = s.changes) :
        ∃ later, s'.changes.get? k = some later ∧ later.stage = .spawned :=
      ⟨c, hchanges ▸ hc, hspawned⟩
    have other {k' : Nat} {d later : PlanChange} (hd : s.changes.get? k' = some d)
        (hbegun : d.stage ≠ .spawned) (hchanges : s'.changes = s.changes.insert k' later) :
        ∃ later, s'.changes.get? k = some later ∧ later.stage = .spawned := by
      have hne : k ≠ k' := by
        rintro rfl
        obtain rfl := Option.some.inj (hc.symm.trans hd)
        exact hbegun hspawned
      refine ⟨c, ?_, hspawned⟩
      rw [hchanges, Table.get?_insert, if_neg hne, hc]
    generalize own events = raised at proceeds
    cases proceeds with
    | works _ hcontrol => exact .inl (kept (congrArg Control.changes hcontrol))
    | pauses hcontrol => exact .inl (kept (congrArg Control.changes hcontrol))
    | @begins change d _ _ hcontrol =>
        by_cases hk : k = change
        · exact .inr (by rw [hk])
        · have hchanges : s'.changes = s.changes.insert change _ :=
            congrArg Control.changes hcontrol
          refine .inl ⟨c, ?_, hspawned⟩
          rw [hchanges, Table.get?_insert, if_neg hk, hc]
    | goesOn hcontrol => exact .inl (kept (congrArg Control.changes hcontrol))
    | swaps hcontrol => exact .inl (kept (congrArg Control.changes hcontrol))
    | goesLive _ _ _ _ _ _ hcontrol => exact .inl (kept (congrArg Control.changes hcontrol))
    | breaksOff _ _ _ _ hd happlying hcontrol =>
        exact .inl (other hd (by simp [happlying]) (congrArg Control.changes hcontrol))
    | panics _ _ _ _ hd happlying hcontrol =>
        exact .inl (other hd (by simp [happlying]) (congrArg Control.changes hcontrol))
    | concludes _ _ _ _ _ hd happlying hcontrol =>
        exact .inl (other hd (by simp [happlying]) (congrArg Control.changes hcontrol))
    | reports hd hstage hcontrol =>
        exact .inl (other hd (by simp [hstage]) (congrArg Control.changes hcontrol))
    | ends hd hstage _ hcontrol =>
        exact .inl (other hd (by simp [hstage]) (congrArg Control.changes hcontrol))

/-- What gives the lock back at the end of a run leaves nothing in flight. -/
theorem Orderly.resting (h : s.Orderly) (taken : s.move action = some (s', events))
    (hclosing : s'.Closing) (hopen : ¬ s.Closing) : s'.Resting := by
  refine ⟨fun k hflight => ?_, .inr hclosing⟩
  cases phases_of_move taken with
  | stays hsame => exact hopen (hsame.symm.trans hclosing)
  | begins _ hbegun => exact absurd (hbegun.symm.trans hclosing) (by simp)
  | @closes _ id turn hcallers hchanges =>
      obtain ⟨stage, hcaller⟩ := turn.caller
      have hcloses : Closes ⟨s, action, s', events⟩ :=
        ⟨id, stage, hcaller, by rw [hcallers, Table.get?_erase, if_pos rfl]⟩
      obtain ⟨_, turn, hlatest⟩ := turn_of_closes h.linked taken hcloses
      exact h.idle_of_turn turn hlatest (inFlight_of_eq hchanges hflight)
  | ends _ _ hnone => exact absurd (hnone.symm.trans hclosing) (by simp)

/-- The scheduler stays at rest as long as nobody disturbs it. -/
theorem Resting.move (h : y.before.Resting)
    (taken : y.before.move y.action = some (y.after, y.events)) (calm : ¬ Disturbs y) :
    y.after.Resting := by
  obtain ⟨before, action, after, events⟩ := y
  rw [Disturbs, not_or, not_exists] at calm
  simp only at h taken calm ⊢
  refine ⟨fun k hflight => calm.1 k ⟨h.idle k, hflight⟩, ?_⟩
  have said (hbefore : before.status = "stopped") : after.status = "stopped" := by
    cases speaks_of_move taken with
    | silent hsame => exact hsame.trans hbefore
    | stops hline => exact hline
    | pauses => exact absurd rfl calm.2
    | begins _ _ hflight => exact absurd hflight (h.idle _)
    | reports _ _ hflight => exact absurd hflight (h.idle _)
  refine h.line.elim (fun hline => .inl (said hline)) fun hclosing => ?_
  cases phases_of_move taken with
  | stays hsame => exact .inr (hsame.trans hclosing)
  | begins hnone => exact absurd (hnone.symm.trans hclosing) (by simp)
  | closes _ _ _ hphase =>
      have hbefore : before.phase = some true := hclosing
      exact .inr (by rw [Closing, hphase, hbefore]; rfl)
  | ends hstopped =>
      cases speaks_of_move taken with
      | silent _ hgoing => exact absurd hstopped hgoing
      | stops hline => exact .inl hline

theorem Restless.move (h : y.before.Restless) (linked : y.before.Linked)
    (taken : y.before.move y.action = some (y.after, y.events)) (going : .stopped ∉ y.events) :
    y.after.Restless := by
  have speaks := speaks_of_move taken
  rcases h with hline | ⟨k, c, hc, hspawned⟩
  · left
    generalize y.action = action at speaks
    cases speaks with
    | silent hsame => exact hsame.trans_ne hline
    | stops _ hstopped => exact absurd hstopped going
    | pauses hother => exact hother
    | begins hother => exact hother
    | reports hother => exact hother
  · rcases spawned_of_move linked taken hc hspawned with ⟨later, hlater, hstage⟩ | haction
    · exact .inr ⟨k, later, hlater, hstage⟩
    · rw [haction] at speaks
      cases speaks with
      | silent _ _ _ hother => exact absurd rfl (hother k)
      | begins hother => exact .inl hother

theorem restless_of_disturbs (linked : y.before.Linked)
    (taken : y.before.move y.action = some (y.after, y.events)) (h : Disturbs y) :
    y.after.Restless := by
  rcases h with ⟨k, hnew, hflight⟩ | haction
  · rcases serves_or_proceeds linked taken with serves | proceeds
    · rcases serves.accepted_cases with ⟨-, hbefore, -⟩ |
        ⟨_, state, _, levels, plan, -, -, hcontrol, -⟩
      · exact absurd (hbefore k hflight) hnew
      · have hchanges : y.after.changes =
            y.before.changes.insert y.before.nextId { plan, levels, state } :=
          congrArg Control.changes hcontrol
        exact .inr ⟨_, _, by rw [hchanges, Table.get?_insert_self], rfl⟩
    · exact absurd (proceeds.inFlight_before hflight) hnew
  · have speaks := speaks_of_move taken
    rw [haction] at speaks
    cases speaks with
    | silent _ _ hother => exact absurd rfl hother
    | pauses hline => exact .inl hline

end Scheduler

end Cadence
