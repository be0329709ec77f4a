import Cadence.Proofs.Scheduler.Preparing

/-!
# The run and its workers

What a move does to the run: ticks count, workers go from one stage to the next
with the rounds of the engine, and everything else leaves the run alone, unless
it belongs to the end of the run.
-/

namespace Cadence

namespace Worker

/-- The order that the worker collects for, with the number of the round. -/
def current (w : Worker) : Option (Order × Nat) :=
  match w.stage with
  | .collecting order round => some (order, round)
  | _ => none

/-- What the worker has still to send, sink by sink. -/
def pending (w : Worker) : List (String × Batch) :=
  match w.stage with
  | .sending _ batch sinks => sinks.map (·, batch)
  | _ => []

/-- The worker waits and has room for an order. -/
structure Free (w : Worker) : Prop where
  stage : w.stage = .waiting
  inbox : w.inbox = none

/-- The worker once it has these sinks before it. -/
def sends (w : Worker) (order : Order) (batch : Batch) (sinks : List String) : Worker :=
  if sinks.isEmpty then { w with stage := .waiting, idle := true }
  else { w with stage := .sending order batch sinks }

/-- The flag, the room for an order and the stage of a worker agree. -/
structure Sound (w : Worker) : Prop where
  idle : w.idle = true ↔ w.Free
  inbox : ∀ order, w.inbox = some order → w.stage = .waiting
  sending : ∀ order batch, w.stage ≠ .sending order batch []

theorem Sound.inbox_eq_none {w : Worker} (h : w.Sound) (hstage : w.stage ≠ .waiting) :
    w.inbox = none :=
  Option.eq_none_iff_forall_ne_some.2 fun order horder => hstage (h.inbox order horder)

theorem Sound.not_idle {w : Worker} (h : w.Sound) (hstage : w.stage ≠ .waiting) :
    w.idle = false :=
  Bool.eq_false_iff.2 fun hidle => hstage (h.idle.1 hidle).stage

theorem sound_new : ({} : Worker).Sound where
  idle := ⟨by simp, fun hfree => absurd hfree.stage (by simp)⟩
  inbox := by simp
  sending := by simp

theorem current_eq_some {w : Worker} {order : Order} {round : Nat} :
    w.current = some (order, round) ↔ w.stage = .collecting order round := by
  unfold current
  split <;> simp_all

section Sends

variable (w : Worker) (order : Order) (batch : Batch) (sinks : List String)

@[simp] theorem pending_sends : (w.sends order batch sinks).pending = sinks.map (·, batch) := by
  unfold sends
  cases sinks <;> rfl

@[simp] theorem current_sends : (w.sends order batch sinks).current = none := by
  unfold sends
  split <;> rfl

@[simp] theorem inbox_sends : (w.sends order batch sinks).inbox = w.inbox := by
  unfold sends
  split <;> rfl

theorem Sound.sends {w : Worker} (h : w.Sound) (hstage : w.stage ≠ .waiting) (order : Order)
    (batch : Batch) (sinks : List String) : (w.sends order batch sinks).Sound := by
  have hinbox := h.inbox_eq_none hstage
  have hidle := h.not_idle hstage
  unfold Worker.sends
  cases sinks with
  | nil => exact ⟨by simpa using ⟨rfl, hinbox⟩, by simp, by simp⟩
  | cons =>
      refine ⟨?_, by simp [hinbox], by simp⟩
      simp only [List.isEmpty_cons, Bool.false_eq_true, if_false, hidle, false_iff]
      exact fun hfree => absurd hfree.stage (by simp)

end Sends

end Worker

namespace SchedulerRun

variable (run : SchedulerRun) (name : WorkerName) (w : Worker)

theorem worker_setWorker (other : WorkerName) :
    (run.setWorker name w).worker other = if other = name then w else run.worker other := by
  cases name <;> cases other <;> rfl

@[simp] theorem worker_setWorker_self : (run.setWorker name w).worker name = w := by
  rw [worker_setWorker, if_pos rfl]

@[simp] theorem stage_setWorker : (run.setWorker name w).stage = run.stage := by
  cases name <;> rfl

@[simp] theorem stopping_setWorker : (run.setWorker name w).stopping = run.stopping := by
  cases name <;> rfl

@[simp] theorem ticks_setWorker : (run.setWorker name w).ticks = run.ticks := by
  cases name <;> rfl

@[simp] theorem worker_ticks (ticks : Nat) :
    ({ run with ticks } : SchedulerRun).worker name = run.worker name := by
  cases name <;> rfl

@[simp] theorem worker_stopping (stopping : Bool) :
    ({ run with stopping } : SchedulerRun).worker name = run.worker name := by
  cases name <;> rfl

@[simp] theorem worker_stage (stage : RunStage) :
    ({ run with stage } : SchedulerRun).worker name = run.worker name := by
  cases name <;> rfl

end SchedulerRun

/-- No round has anything to do with the difference. -/
structure Engine.SameRounds (e e' : Engine) : Prop where
  rounds : e'.rounds = e.rounds
  nextId : e.nextId ≤ e'.nextId

theorem Engine.SameRounds.refl (e : Engine) : e.SameRounds e := ⟨rfl, Nat.le_refl _⟩

def Move.isOfRun : Move → Bool
  | act action => action.isOfRun
  | post _ => false

/-- Whether an event is of a round or a tick, or the end of a run. -/
def SchedulerEvent.isWork : SchedulerEvent → Bool
  | handed .. | droppedTick _ | delivered .. | stopped | engine (.collected ..) => true
  | _ => false

namespace Scheduler

def worked (events : List SchedulerEvent) : List SchedulerEvent := events.filter (·.isWork)

/-- What a move does to the run and the rounds of its workers. -/
inductive Drives (s s' : Scheduler) : Move → List SchedulerEvent → Prop
  | aside {action : Move} : action.isOfRun = false → s'.run = s.run → s'.dropped = s.dropped →
      s.engine.SameRounds s'.engine → Drives s s' action []
  | starts : s.run = none → s'.run = some {} → s'.dropped = s.dropped → s'.engine = s.engine →
      Drives s s' (.act .startRun) []
  | halts {action : Move} {run run' : SchedulerRun} : s.run = some run → s'.run = some run' →
      action = .act .requestStop ∨ run.stopping = true ∨ run.stage ≠ .ticking →
      (∀ caller, run.stage = .settling caller → run'.stage = .settling caller) →
      (run'.stage = .closing ↔ run.stage = .closing) →
      (∀ id r, s'.engine.rounds.get? id = some r → s.engine.rounds.get? id = some r) →
      s.engine.nextId ≤ s'.engine.nextId →
      (∀ name, run'.worker name = run.worker name ∨ run'.worker name = { stage := .stopped }) →
      (∀ name order id, (run.worker name).stage = .collecting order id →
        run'.worker name = run.worker name ∨ s'.engine.rounds.get? id = none) →
      (∀ caller, run'.stage = .settling caller →
        run.stage = .settling caller ∨ ∀ name, (run.worker name).stage = .stopped) →
      Drives s s' action []
  | closes {action : Move} {id : Nat} : s.Turn id .shutdown action →
      s'.callers = s.callers.erase id → s'.changes = s.changes → s'.dropped = s.dropped →
      s.engine.SameRounds s'.engine →
      s'.run = s.run.map (fun run => { run with stage := .closing }) → Drives s s' action []
  | finishes {run : SchedulerRun} : s.run = some run → run.stage = .closing → s'.run = none →
      s'.dropped = s.dropped → s.engine.SameRounds s'.engine →
      Drives s s' (.act .finishRun) [.stopped]
  | passes {run : SchedulerRun} : s.run = some run → run.stage = .ticking →
      s.orderAt (run.ticks + 1) = none → s'.run = some { run with ticks := run.ticks + 1 } →
      s'.dropped = s.dropped → s'.engine = s.engine → Drives s s' (.act .tick) []
  | hands {run run' : SchedulerRun} {order : Order} {name : WorkerName} : s.run = some run →
      run.stage = .ticking → s.orderAt (run.ticks + 1) = some order →
      offer order { run with ticks := run.ticks + 1 } [.primary, .secondary] = (run', some name) →
      s'.run = some run' → s'.dropped = s.dropped → s'.engine = s.engine →
      Drives s s' (.act .tick) [.handed name order]
  | drops {run run' : SchedulerRun} {order : Order} : s.run = some run → run.stage = .ticking →
      s.orderAt (run.ticks + 1) = some order →
      offer order { run with ticks := run.ticks + 1 } [.primary, .secondary] = (run', none) →
      s'.run = some run' → s'.dropped = s.dropped + 1 → s'.engine = s.engine →
      Drives s s' (.act .tick) [.droppedTick run'.ticks]
  | readies {run : SchedulerRun} {name : WorkerName} : s.run = some run →
      (run.worker name).stage = .starting →
      s'.run = some (run.setWorker name { run.worker name with stage := .waiting, idle := true }) →
      s'.dropped = s.dropped → s.engine.SameRounds s'.engine →
      Drives s s' (.act (.startWorker name)) []
  | takes {run : SchedulerRun} {name : WorkerName} {order : Order} : s.run = some run →
      (run.worker name).stage = .waiting → (run.worker name).inbox = some order →
      s'.run = some (run.setWorker name { run.worker name with
        stage := .collecting order s.engine.nextId, inbox := none }) →
      s'.dropped = s.dropped →
      s'.engine.rounds = s.engine.rounds.insert s.engine.nextId { level := order.level } →
      s'.engine.nextId = s.engine.nextId + 1 → Drives s s' (.act (.takeOrder name)) []
  | goesOn {inner : EngineAction} {id : Nat} {r r' : EngineRound} : s'.run = s.run →
      s'.dropped = s.dropped → s'.engine.nextId = s.engine.nextId →
      s.engine.rounds.get? id = some r → s'.engine.rounds = s.engine.rounds.insert id r' →
      r'.level = r.level → Drives s s' (.act (.engine inner)) []
  | collects {inner : EngineAction} {id : Nat} {r : EngineRound} {batch : Batch}
      {run : SchedulerRun} {name : WorkerName} {order : Order} : s.run = some run →
      (run.worker name).stage = .collecting order id →
      s'.run = some (run.setWorker name ((run.worker name).sends order
        (s.settings.transformed { batch with state := order.state }) s.sinks)) →
      s'.dropped = s.dropped → s'.engine.nextId = s.engine.nextId →
      s.engine.rounds.get? id = some r → s'.engine.rounds = s.engine.rounds.erase id →
      batch.level = r.level → Drives s s' (.act (.engine inner)) [.engine (.collected id batch)]
  | unclaimed {inner : EngineAction} {id : Nat} {r : EngineRound} {batch : Batch} :
      (∀ run name order, s.run = some run → (run.worker name).stage ≠ .collecting order id) →
      s'.run = s.run → s'.dropped = s.dropped → s'.engine.nextId = s.engine.nextId →
      s.engine.rounds.get? id = some r → s'.engine.rounds = s.engine.rounds.erase id →
      Drives s s' (.act (.engine inner)) [.engine (.collected id batch)]
  | delivers {run : SchedulerRun} {name : WorkerName} {order : Order} {batch : Batch}
      {sink : String} {sinks : List String} : s.run = some run →
      (run.worker name).stage = .sending order batch (sink :: sinks) →
      s'.run = some (run.setWorker name ((run.worker name).sends order batch sinks)) →
      s'.dropped = s.dropped → s.engine.SameRounds s'.engine →
      Drives s s' (.act (.delivered name)) [.delivered name sink batch]

variable {s s' : Scheduler} {action : Move} {events : List SchedulerEvent}

/-! ## One move -/

theorem run_send (run : SchedulerRun) (name : WorkerName) (w : Worker) (order : Order)
    (batch : Batch) (sinks : List String) :
    (s.send run name w order batch sinks).run =
        some (run.setWorker name (w.sends order batch sinks)) ∧
      (s.send run name w order batch sinks).dropped = s.dropped := by
  unfold send Worker.sends
  split <;> exact ⟨rfl, rfl⟩

theorem handBatch_eq (run : SchedulerRun) (name : WorkerName) (round : Nat) (batch : Batch) :
    (∃ order, (run.worker name).stage = .collecting order round ∧
      s.handBatch run name round batch = some (s.send run name (run.worker name) order
        (s.settings.transformed { batch with state := order.state }) s.sinks)) ∨
    (∀ order, (run.worker name).stage ≠ .collecting order round) ∧
      s.handBatch run name round batch = none := by
  unfold handBatch
  simp only
  split
  · next order r hstage =>
      split
      · next hround =>
          subst hround
          exact .inl ⟨order, hstage, rfl⟩
      · next hround => exact .inr ⟨by simp [hstage, hround], rfl⟩
  · next hstage => exact .inr ⟨fun order h => hstage order round h, rfl⟩

/-- A batch goes to the worker that collects the round, if there is one. -/
theorem roundEnded_eq (round : Nat) (batch : Batch) :
    (∃ run name order, s.run = some run ∧ (run.worker name).stage = .collecting order round ∧
      s.roundEnded round batch = s.send run name (run.worker name) order
        (s.settings.transformed { batch with state := order.state }) s.sinks) ∨
    (∀ run name order, s.run = some run → (run.worker name).stage ≠ .collecting order round) ∧
      s.roundEnded round batch = s := by
  cases hrun : s.run with
  | none => exact .inr ⟨by simp, by rw [roundEnded, hrun]⟩
  | some run =>
      simp only [roundEnded, hrun]
      rcases s.handBatch_eq run .primary round batch with ⟨order, hstage, hhand⟩ | ⟨hprimary, hnone⟩
      · rw [hhand]
        exact .inl ⟨run, .primary, order, rfl, hstage, rfl⟩
      · rw [hnone, Option.none_or]
        rcases s.handBatch_eq run .secondary round batch with ⟨order, hstage, hhand⟩ |
          ⟨hsecondary, hnone⟩
        · rw [hhand]
          exact .inl ⟨run, .secondary, order, rfl, hstage, rfl⟩
        · rw [hnone]
          refine .inr ⟨?_, rfl⟩
          rintro _ (_ | _) order ⟨⟩
          · exact hprimary order
          · exact hsecondary order

theorem stage_offer (order : Order) (run : SchedulerRun) (names : List WorkerName) :
    (offer order run names).1.stage = run.stage := by
  induction names generalizing run with
  | nil => rfl
  | cons first rest ih =>
      simp only [offer]
      split
      · exact ih run
      · split
        · exact SchedulerRun.stage_setWorker ..
        · exact (ih _).trans (SchedulerRun.stage_setWorker ..)

theorem react_aside {event : EngineEvent} (h : ∀ k batch, event ≠ .collected k batch) :
    (s.react event).1.run = s.run ∧ (s.react event).1.dropped = s.dropped ∧
      worked (s.react event).2 = [] := by
  cases event with
  | after preparation =>
      simp only [react, activate]
      split <;> exact ⟨rfl, rfl, rfl⟩
  | prepared preparation outcome =>
      simp only [react, preparationEnded]
      split
      · exact ⟨rfl, rfl, rfl⟩
      · split <;> exact ⟨rfl, rfl, rfl⟩
  | collected round batch => exact absurd rfl (h round batch)
  | _ => exact ⟨rfl, rfl, rfl⟩

theorem reactAll_aside {raised : List EngineEvent} (h : ∀ k batch, .collected k batch ∉ raised) :
    (s.reactAll raised).1.run = s.run ∧ (s.reactAll raised).1.dropped = s.dropped ∧
      worked (s.reactAll raised).2 = [] := by
  induction raised generalizing s with
  | nil => exact ⟨rfl, rfl, rfl⟩
  | cons event rest ih =>
      have hevent : ∀ k batch, event ≠ .collected k batch := fun k batch heq =>
        h k batch (heq ▸ List.mem_cons_self)
      obtain ⟨hrun, hdropped, hworked⟩ := react_aside (s := s) hevent
      obtain ⟨hrun', hdropped', hworked'⟩ := ih (s := (s.react event).1) fun k batch hmem =>
        h k batch (List.mem_cons_of_mem _ hmem)
      refine ⟨hrun'.trans hrun, hdropped'.trans hdropped, ?_⟩
      simp only [worked] at hworked hworked' ⊢
      simp only [reactAll, List.filter_append, hworked, hworked', List.append_nil]

theorem worked_reactAll (raised : List EngineEvent) :
    worked (s.reactAll raised).2 = worked (s.reactAll (Engine.signals raised)).2 := by
  induction raised generalizing s with
  | nil => rfl
  | cons event rest ih =>
      cases hsignal : event.isSignal with
      | true =>
          have hsignals : Engine.signals (event :: rest) = event :: Engine.signals rest :=
            List.filter_cons_of_pos hsignal
          have hrest := ih (s := (s.react event).1)
          simp only [worked] at hrest ⊢
          simp only [hsignals, reactAll, List.filter_append, hrest]
      | false =>
          have hsignals : Engine.signals (event :: rest) = Engine.signals rest :=
            List.filter_cons_of_neg (by simp [hsignal])
          simp only [hsignals, reactAll, react_of_not_signal hsignal]
          cases event with
          | creating | preparing | committing | cleaning => exact ih
          | _ => contradiction

theorem drives_engine {inner : EngineAction} (taken : s.engineStep inner = some (s', events)) :
    Drives s s' (.act (.engine inner)) (worked events) := by
  obtain ⟨hinner, engine, raised, hstep, hnext⟩ := engineStep_eq_some taken
  have hnextId := Engine.nextId_le_of_step hstep
  obtain ⟨-, board, hboard⟩ := keeps_reactAll (s := { s with engine }) raised
  obtain ⟨hs, hevents⟩ := Prod.mk.inj hnext
  rw [← hs] at hboard
  have hrounds : s'.engine.rounds = engine.rounds := by rw [hboard]
  have hnext : s'.engine.nextId = engine.nextId := by rw [hboard]
  cases hkind : inner.isOfRound with
  | false =>
      obtain ⟨hsame, -, hnone, -, -, -⟩ := Engine.preparing_frame hkind hstep
      obtain ⟨hrun, hdropped, hworked⟩ := reactAll_aside (s := { s with engine }) hnone
      rw [hevents, hworked]
      rw [← hs] at hrun hdropped
      exact .aside rfl hrun hdropped ⟨hrounds.trans hsame, hnext ▸ hnextId⟩
  | true =>
      have hcollects := Engine.collects_of_step hkind hstep
      have hstate := (reactAll_signals (s := { s with engine }) raised).1
      rw [hevents, worked_reactAll]
      rw [← hs] at hstate
      generalize Engine.signals raised = signals at hcollects hstate
      cases hcollects with
      | begins => contradiction
      | dropped => contradiction
      | goesOn hsame hr hrounds' hlevel =>
          refine .goesOn ?_ ?_ (hnext.trans hsame) hr (hrounds.trans hrounds') hlevel <;>
            rw [hstate] <;> rfl
      | @collects _ id r batch hsame hr hrounds' hlevel =>
          change s' = { s with engine }.roundEnded id batch at hstate
          rcases { s with engine }.roundEnded_eq id batch with ⟨run, name, order, hrun, hcollecting,
            hsent⟩ | ⟨hnobody, hsame'⟩
          · obtain ⟨hrun', hdropped⟩ := run_send (s := { s with engine }) run name (run.worker name)
              order (s.settings.transformed { batch with state := order.state }) s.sinks
            rw [hstate, hsent] at hrounds hnext ⊢
            exact .collects hrun hcollecting hrun' hdropped (hnext.trans hsame) hr
              (hrounds.trans hrounds') hlevel
          · rw [hstate, hsame'] at hrounds hnext ⊢
            exact .unclaimed hnobody rfl rfl (hnext.trans hsame) hr (hrounds.trans hrounds')

theorem drives_of_run {action : SchedulerAction} (hkind : action.isOfRun = true)
    (taken : s.step action = some (s', events)) : Drives s s' (.act action) (worked events) := by
  cases action with
  | startRun =>
      obtain ⟨hnone, ⟨⟩⟩ := startRun_eq_some taken
      exact .starts hnone rfl rfl rfl
  | requestStop =>
      obtain ⟨run, hrun, ⟨⟩⟩ := requestStop_eq_some taken
      exact .halts hrun rfl (.inl rfl) (fun _ h => h) .rfl (fun _ _ h => h) (Nat.le_refl _)
        (fun name => .inl (SchedulerRun.worker_stopping ..))
        (fun name _ _ _ => .inl (SchedulerRun.worker_stopping ..)) fun _ => .inl
  | tick =>
      obtain ⟨run, hrun, hticking, ⟨hnone, ⟨⟩⟩ | ⟨order, horder, ⟨run', name, hoffer, ⟨⟩⟩ |
        ⟨run', hoffer, ⟨⟩⟩⟩⟩ := tick_eq_some taken
      · exact .passes hrun hticking hnone rfl rfl rfl
      · exact .hands hrun hticking horder hoffer rfl rfl rfl
      · exact .drops hrun hticking horder hoffer rfl rfl rfl
  | stopTicking =>
      obtain ⟨run, hrun, hticking, hstopping, ⟨⟩⟩ := stopTicking_eq_some taken
      refine .halts hrun rfl (.inr (.inl hstopping)) ?_ ?_ (fun _ _ h => h) (Nat.le_refl _)
        (fun name => .inl (SchedulerRun.worker_stage ..))
        (fun name _ _ _ => .inl (SchedulerRun.worker_stage ..)) (by simp)
      · simp [hticking]
      · simp [hticking]
  | startWorker name =>
      obtain ⟨run, hrun, hstarting, ⟨⟩⟩ := startWorker_eq_some taken
      exact .readies hrun hstarting rfl rfl ⟨rfl, Nat.le_refl _⟩
  | takeOrder name =>
      obtain ⟨run, order, hrun, hwaiting, hinbox, ⟨⟩⟩ := takeOrder_eq_some taken
      exact .takes hrun hwaiting hinbox rfl rfl rfl rfl
  | delivered name =>
      obtain ⟨run, order, batch, sink, sinks, hrun, hsending, ⟨⟩⟩ := delivered_eq_some taken
      obtain ⟨hrun', hdropped⟩ := run_send (s := s) run name (run.worker name) order batch sinks
      obtain ⟨board, hboard⟩ :=
        (keeps_send (s := s) run name (run.worker name) order batch sinks).engine
      refine .delivers hrun hsending hrun' hdropped ?_
      rw [hboard]
      exact ⟨rfl, Nat.le_refl _⟩
  | stopWorker name =>
      obtain ⟨run, hrun, hmay, -, -, ⟨⟩⟩ := stopWorker_eq_some taken
      refine .halts hrun rfl (.inr (hmay.imp id ?_)) ?_ ?_ ?_ ?_ (fun other => ?_)
        (fun other order id hcollecting => ?_) fun _ h => .inl ?_
      · rintro ⟨hjoining, -⟩
        simp [hjoining]
      · exact fun _ h => (SchedulerRun.stage_setWorker ..).trans h
      · rw [SchedulerRun.stage_setWorker]
      · intro id r hr
        change (s.leaving (run.worker name)).engine.rounds.get? id = some r at hr
        rw [leaving] at hr
        split at hr
        · exact Table.get?_of_get?_erase hr
        · exact hr
      · change s.engine.nextId ≤ (s.leaving (run.worker name)).engine.nextId
        rw [leaving]
        split <;> exact Nat.le_refl _
      · rw [SchedulerRun.worker_setWorker]
        split
        · exact .inr rfl
        · exact .inl rfl
      · by_cases hother : other = name
        · subst hother
          right
          change (s.leaving (run.worker other)).engine.rounds.get? id = none
          rw [leaving, hcollecting]
          exact (Table.get?_erase ..).trans (if_pos rfl)
        · rw [SchedulerRun.worker_setWorker, if_neg hother]
          exact .inl rfl
      · exact (SchedulerRun.stage_setWorker ..).symm.trans h
  | finishRun =>
      obtain ⟨run, hrun, hclosing, ⟨⟩⟩ := finishRun_eq_some taken
      exact .finishes hrun hclosing rfl rfl ⟨rfl, Nat.le_refl _⟩
  | _ => contradiction

theorem drives_takeOver (change : Nat) :
    (s.takeOver change).run = s.run ∧ (s.takeOver change).dropped = s.dropped ∧
      s.engine.SameRounds (s.takeOver change).engine := by
  refine ⟨?_, ?_, by rw [engine_takeOver]; exact ⟨rfl, Nat.le_refl _⟩⟩ <;>
  · unfold takeOver cancelChange
    simp only
    split
    · rfl
    · split
      · split <;> rfl
      · rfl

theorem drives_grant {id : Nat} (h : s.grant id = some (s', events)) :
    Drives s s' (.act (.grant id)) (worked events) := by
  obtain ⟨hturn, request, hcaller, hcases⟩ := grant_eq_some h
  obtain ⟨_, _, _, -, -, ⟨⟩⟩ | ⟨_, _, _, _, -, -, -, ⟨⟩⟩ | ⟨change, -, -, -, ⟨⟩⟩ | ⟨-, -, ⟨⟩⟩ |
    ⟨_, -, -, ⟨⟩⟩ | ⟨rfl, -, ⟨⟩⟩ := hcases
  · exact .aside rfl rfl rfl (.refl _)
  · exact .aside rfl rfl rfl (.refl _)
  · obtain ⟨hrun, hdropped, hsame⟩ := drives_takeOver (s := s) change
    exact .aside rfl hrun hdropped hsame
  · exact .aside rfl rfl rfl (.refl _)
  · exact .aside rfl rfl rfl (.refl _)
  · exact .closes (.first hturn hcaller) rfl rfl rfl (.refl _) rfl

theorem drives_resume {id : Nat} (h : s.resume id = some (s', events)) :
    Drives s s' (.act (.resume id)) (worked events) := by
  obtain ⟨request, change, hcaller, hended, hcases⟩ := resume_eq_some h
  obtain ⟨_, _, _, -, -, ⟨⟩⟩ | ⟨_, _, _, _, -, -, ⟨⟩⟩ | ⟨-, ⟨⟩⟩ | ⟨rfl, ⟨⟩⟩ := hcases
  · exact .aside rfl rfl rfl (.refl _)
  · exact .aside rfl rfl rfl (.refl _)
  · exact .aside rfl rfl rfl (.refl _)
  · exact .closes (.again hcaller hended) rfl rfl rfl (.refl _) rfl

theorem drives_of_move (taken : s.move action = some (s', events)) :
    Drives s s' action (worked events) := by
  cases action with
  | post line =>
      cases taken
      exact .aside rfl rfl rfl ⟨rfl, Nat.le_refl _⟩
  | act action =>
      cases hkind : action.isOfRun with
      | true => exact drives_of_run hkind taken
      | false =>
          cases action with
          | engine inner => exact drives_engine taken
          | grant caller => exact drives_grant taken
          | resume caller => exact drives_resume taken
          | beginChange change =>
              obtain ⟨c, -, -, ⟨⟩⟩ := beginChange_eq_some taken
              exact .aside rfl rfl rfl ⟨rfl, Nat.le_succ _⟩
          | reportChange change =>
              obtain ⟨c, outcome, board, -, -, ⟨⟩⟩ := reportChange_eq_some taken
              exact .aside rfl rfl rfl ⟨rfl, Nat.le_refl _⟩
          | endChange change =>
              obtain ⟨c, outcome, -, -, ⟨⟩⟩ := endChange_eq_some taken
              exact .aside rfl rfl rfl (.refl _)
          | join =>
              obtain ⟨run, hrun, hjoining, hprimary, hsecondary, ⟨⟩⟩ := join_eq_some taken
              refine .halts hrun rfl (.inr (.inr ?_)) ?_ ?_ (fun _ _ h => h) (Nat.le_refl _)
                (fun name => .inl (SchedulerRun.worker_stage ..))
                (fun name _ _ _ => .inl (SchedulerRun.worker_stage ..)) ?_
              · simp [hjoining]
              · simp [hjoining]
              · simp [hjoining]
              · rintro _ -
                refine .inr fun name => ?_
                cases name with
                | primary => exact hprimary
                | secondary => exact hsecondary
          | call request =>
              obtain ⟨-, ⟨⟩⟩ := call_eq_some taken
              exact .aside rfl rfl rfl (.refl _)
          | dropCaller caller =>
              obtain ⟨asking, -, -, ⟨⟩⟩ := dropCaller_eq_some taken
              exact .aside rfl rfl rfl (.refl _)
          | pause =>
              cases taken
              exact .aside rfl rfl rfl ⟨rfl, Nat.le_refl _⟩
          | _ => contradiction

/-! ## The end of a run -/

/-- Whether there is a run, and if so whether it has given the lock back. -/
def phase (s : Scheduler) : Option Bool := s.run.map (·.stage = .closing)

/-- The run has only to say that it is over. -/
def Closing (s : Scheduler) : Prop := s.phase = some true

instance : DecidablePred Closing := fun s => inferInstanceAs (Decidable (s.phase = some true))

/-- What a move does to the phase of the run. -/
inductive Phases (s s' : Scheduler) (events : List SchedulerEvent) : Move → Prop
  | stays {action : Move} : s'.phase = s.phase → .stopped ∉ events → Phases s s' events action
  | begins : s.phase = none → s'.phase = some false → .stopped ∉ events →
      Phases s s' events (.act .startRun)
  | closes {action : Move} {id : Nat} : s.Turn id .shutdown action →
      s'.callers = s.callers.erase id → s'.changes = s.changes →
      s'.phase = s.phase.map (fun _ => true) → .stopped ∉ events → Phases s s' events action
  | ends : .stopped ∈ events → s.Closing → s'.phase = none → Phases s s' events (.act .finishRun)

theorem phases_of_move (taken : s.move action = some (s', events)) : Phases s s' events action := by
  have hworked : .stopped ∈ events ↔ .stopped ∈ worked events :=
    ⟨fun h => List.mem_filter.2 ⟨h, rfl⟩, fun h => (List.mem_filter.1 h).1⟩
  have same (hrun : s'.run = s.run) (hgoing : .stopped ∉ events) : Phases s s' events action :=
    .stays (by rw [phase, hrun, phase]) hgoing
  have staged {run run' : SchedulerRun} (hrun : s.run = some run) (hrun' : s'.run = some run')
      (hstage : run'.stage = .closing ↔ run.stage = .closing) (hgoing : .stopped ∉ events) :
      Phases s s' events action :=
    .stays (by simp [phase, hrun, hrun', hstage]) hgoing
  have offered {run run' : SchedulerRun} {ticks : Nat} {order : Order} {taker : Option WorkerName}
      (hoffer : offer order { run with ticks } [.primary, .secondary] = (run', taker)) :
      run'.stage = run.stage := by
    have hstage := stage_offer order { run with ticks } [.primary, .secondary]
    rwa [hoffer] at hstage
  have drives := drives_of_move taken
  generalize worked events = raised at drives hworked
  cases drives with
  | aside _ hrun => exact same hrun (by simp [hworked])
  | starts hnone hrun =>
      exact .begins (by rw [phase, hnone]; rfl) (by rw [phase, hrun]; rfl) (by simp [hworked])
  | halts hrun hrun' _ _ hstage => exact staged hrun hrun' hstage (by simp [hworked])
  | closes turn hcallers hchanges _ _ hrun =>
      refine .closes turn hcallers hchanges ?_ (by simp [hworked])
      cases hbefore : s.run <;> simp [phase, hrun, hbefore]
  | finishes hrun hclosing hnone =>
      refine .ends (by simp [hworked]) ?_ ?_
      · simp [Closing, phase, hrun, hclosing]
      · simp [phase, hnone]
  | passes hrun _ _ hrun' => exact staged hrun hrun' .rfl (by simp [hworked])
  | hands hrun _ _ hoffer hrun' =>
      exact staged hrun hrun' (by rw [offered hoffer]) (by simp [hworked])
  | drops hrun _ _ hoffer hrun' =>
      exact staged hrun hrun' (by rw [offered hoffer]) (by simp [hworked])
  | readies hrun _ hrun' => exact staged hrun hrun' (by simp) (by simp [hworked])
  | takes hrun _ _ hrun' => exact staged hrun hrun' (by simp) (by simp [hworked])
  | goesOn hrun => exact same hrun (by simp [hworked])
  | collects hrun _ hrun' => exact staged hrun hrun' (by simp) (by simp [hworked])
  | unclaimed _ hrun => exact same hrun (by simp [hworked])
  | delivers hrun _ hrun' => exact staged hrun hrun' (by simp) (by simp [hworked])

/-! ## Runs -/

/-- Whoever asks for the end of a run is the caller the run waits for. -/
def Sole (s : Scheduler) : Prop :=
  ∀ id asking, s.callers.get? id = some asking → asking.request = .shutdown →
    ∃ run, s.run = some run ∧ run.stage = .settling id

theorem Sole.not_turn (h : s.Sole) {run : SchedulerRun} (hrun : s.run = some run)
    (hticking : run.stage = .ticking) (id : Nat) : ¬ s.Turn id .shutdown action := by
  intro turn
  obtain ⟨stage, hcaller⟩ := turn.caller
  obtain ⟨same, hsame, hsettling⟩ := h id _ hcaller rfl
  obtain rfl := Option.some.inj (hrun.symm.trans hsame)
  simp [hticking] at hsettling

/-- Who asks for the end of a run has asked before, or is the run itself. -/
theorem shutdown_of_move (linked : s.Linked) (taken : s.move action = some (s', events)) {id : Nat}
    {asking : Caller} (hasking : s'.callers.get? id = some asking)
    (hrequest : asking.request = .shutdown) :
    (∃ earlier, s.callers.get? id = some earlier ∧ earlier.request = .shutdown) ∨
      action = .act .join ∧ id = s.nextId := by
  have gone : ∀ {k}, s'.callers = s.callers.erase k →
      ∃ earlier, s.callers.get? id = some earlier ∧ earlier.request = .shutdown :=
    fun hcallers => ⟨asking, Table.get?_of_get?_erase (hcallers ▸ hasking), hrequest⟩
  have moved : ∀ {k request stage change},
      s'.callers = s.callers.insert k { request, stage := .awaiting change } →
      s.callers.get? k = some { request, stage } →
      ∃ earlier, s.callers.get? id = some earlier ∧ earlier.request = .shutdown := by
    intro k request stage change hcallers hbefore
    rw [hcallers, Table.get?_insert] at hasking
    split at hasking
    · next hid =>
        obtain rfl := Option.some.inj hasking
        exact ⟨{ request, stage }, hid ▸ hbefore, hrequest⟩
    · exact ⟨asking, hasking, hrequest⟩
  rcases serves_or_proceeds linked taken with serves | proceeds
  · generalize own events = raised at serves
    cases serves with
    | @asks _ request hkind hcontrol =>
        have hcallers : s'.callers = s.callers.insert s.nextId { request } :=
          congrArg Control.callers hcontrol
        rw [hcallers, Table.get?_insert] at hasking
        split at hasking
        · next hid =>
            obtain rfl := Option.some.inj hasking
            obtain rfl : request = .shutdown := hrequest
            rcases hkind with rfl | ⟨rfl, -⟩
            · cases taken
            · exact .inr ⟨rfl, hid⟩
        · exact .inl ⟨asking, hasking, hrequest⟩
    | refuses _ _ hcontrol => exact .inl (gone (congrArg Control.callers hcontrol))
    | accepts _ _ _ hcontrol => exact .inl (gone (congrArg Control.callers hcontrol))
    | awaits _ hcaller _ _ _ hcontrol =>
        exact .inl (moved (congrArg Control.callers hcontrol) hcaller)
    | joins _ hcaller _ hcontrol =>
        exact .inl (moved (congrArg Control.callers hcontrol) hcaller)
    | answers _ _ hcontrol => exact .inl (gone (congrArg Control.callers hcontrol))
    | closes _ _ hcontrol => exact .inl (gone (congrArg Control.callers hcontrol))
    | drops _ _ hcontrol => exact .inl (gone (congrArg Control.callers hcontrol))
  · obtain ⟨hcallers, -⟩ := proceeds.frame
    exact .inl ⟨asking, hcallers ▸ hasking, hrequest⟩

/-- A run that waits for its turn goes on waiting until the turn comes. -/
theorem settling_of_move (taken : s.move action = some (s', events)) {run : SchedulerRun}
    {caller : Nat} (hrun : s.run = some run) (hstage : run.stage = .settling caller) :
    (∃ id, s.Turn id .shutdown action ∧ s'.callers = s.callers.erase id) ∨
      ∃ run', s'.run = some run' ∧ run'.stage = .settling caller := by
  have working : ∀ {other : SchedulerRun} {name : WorkerName} {w : Worker}, s.run = some other →
      s'.run = some (other.setWorker name w) →
      ∃ run', s'.run = some run' ∧ run'.stage = .settling caller := by
    intro other name w hother hrun'
    obtain rfl := Option.some.inj (hrun.symm.trans hother)
    exact ⟨_, hrun', (SchedulerRun.stage_setWorker ..).trans hstage⟩
  have ticking : ∀ {other : SchedulerRun}, s.run = some other → other.stage ≠ .ticking := by
    intro other hother hticking
    obtain rfl := Option.some.inj (hrun.symm.trans hother)
    simp [hstage] at hticking
  have drives := drives_of_move taken
  generalize worked events = raised at drives
  cases drives with
  | aside _ hsame => exact .inr ⟨run, hsame.trans hrun, hstage⟩
  | starts hnone => simp [hnone] at hrun
  | halts hother hrun' _ hsettling =>
      obtain rfl := Option.some.inj (hrun.symm.trans hother)
      exact .inr ⟨_, hrun', hsettling caller hstage⟩
  | closes turn hcallers => exact .inl ⟨_, turn, hcallers⟩
  | finishes hother hclosing =>
      obtain rfl := Option.some.inj (hrun.symm.trans hother)
      simp [hstage] at hclosing
  | passes hother hticking => exact absurd hticking (ticking hother)
  | hands hother hticking => exact absurd hticking (ticking hother)
  | drops hother hticking => exact absurd hticking (ticking hother)
  | readies hother _ hrun' => exact .inr (working hother hrun')
  | takes hother _ _ hrun' => exact .inr (working hother hrun')
  | goesOn hsame => exact .inr ⟨run, hsame.trans hrun, hstage⟩
  | collects hother _ hrun' => exact .inr (working hother hrun')
  | unclaimed _ hsame => exact .inr ⟨run, hsame.trans hrun, hstage⟩
  | delivers hother _ hrun' => exact .inr (working hother hrun')

theorem Sole.move (h : s.Sole) (linked : s.Linked) (taken : s.move action = some (s', events)) :
    s'.Sole := by
  intro id asking hasking hrequest
  rcases shutdown_of_move linked taken hasking hrequest with ⟨earlier, hearlier, hbefore⟩ |
    ⟨rfl, rfl⟩
  · obtain ⟨run, hrun, hstage⟩ := h id earlier hearlier hbefore
    rcases settling_of_move taken hrun hstage with ⟨other, turn, hcallers⟩ | hsettling
    · obtain ⟨stage, hcaller⟩ := turn.caller
      obtain ⟨same, hsame, hother⟩ := h other _ hcaller rfl
      obtain rfl := Option.some.inj (hrun.symm.trans hsame)
      obtain rfl := RunStage.settling.inj (hstage.symm.trans hother)
      rw [hcallers, Table.get?_erase, if_pos rfl] at hasking
      contradiction
    · exact hsettling
  · obtain ⟨run, -, -, -, -, ⟨⟩⟩ := join_eq_some taken
    exact ⟨_, rfl, rfl⟩

/-- Only rounds of the past have been given their numbers. -/
def RoundsBelow (s : Scheduler) : Prop :=
  ∀ id r, s.engine.rounds.get? id = some r → id < s.engine.nextId

theorem RoundsBelow.drives {own : List SchedulerEvent} (h : s.RoundsBelow)
    (drives : Drives s s' action own) : s'.RoundsBelow := by
  have same : s.engine.SameRounds s'.engine → s'.RoundsBelow := by
    intro hsame id r hr
    rw [hsame.rounds] at hr
    exact Nat.lt_of_lt_of_le (h id r hr) hsame.nextId
  have gone : ∀ {k}, s'.engine.rounds = s.engine.rounds.erase k →
      s'.engine.nextId = s.engine.nextId → s'.RoundsBelow := by
    intro k hrounds hnextId id r hr
    rw [hrounds] at hr
    exact hnextId ▸ h id r (Table.get?_of_get?_erase hr)
  cases drives with
  | aside _ _ _ hsame => exact same hsame
  | starts _ _ _ hengine => exact same (hengine ▸ .refl _)
  | halts _ _ _ _ _ hold hnextId =>
      exact fun id r hr => Nat.lt_of_lt_of_le (h id r (hold id r hr)) hnextId
  | closes _ _ _ _ hsame => exact same hsame
  | finishes _ _ _ _ hsame => exact same hsame
  | passes _ _ _ _ _ hengine => exact same (hengine ▸ .refl _)
  | hands _ _ _ _ _ _ hengine => exact same (hengine ▸ .refl _)
  | drops _ _ _ _ _ _ hengine => exact same (hengine ▸ .refl _)
  | readies _ _ _ _ hsame => exact same hsame
  | takes _ _ _ _ _ hrounds hnextId =>
      intro id r hr
      rw [hrounds, Table.get?_insert] at hr
      split at hr
      · omega
      · have hid := h id r hr
        omega
  | goesOn _ _ hnextId hr₀ hrounds =>
      intro id r hr
      rw [hrounds, Table.get?_insert] at hr
      rw [hnextId]
      split at hr
      · next hid => exact hid ▸ h _ _ hr₀
      · exact h id r hr
  | collects _ _ _ _ hnextId _ hrounds => exact gone hrounds hnextId
  | unclaimed _ _ _ hnextId _ hrounds => exact gone hrounds hnextId
  | delivers _ _ _ _ hsame => exact same hsame

end Scheduler

end Cadence
