import Cadence.Proofs.Scheduler.Dispatching
import Cadence.Proofs.Scheduler.InForce

/-!
# The labels of a batch

A batch has its level and its state from the order it was collected for, and its
plan from the engine.  Level and state go back to the change that was in force
when the order was handed out, the plan to the one that was live when the round
ended.  If no plan is swapped in between, these are labels of one change;
otherwise they need not be, since nothing holds back an order that has been handed
out already.
-/

namespace Cadence

/-- The batch that the worker is sending. -/
def Worker.batch? (w : Worker) : Option Batch :=
  match w.stage with
  | .sending _ batch _ => some batch
  | _ => none

namespace Scheduler

variable {s s' : Scheduler} {events : List SchedulerEvent} {history : History}
  {y : Step Scheduler Move SchedulerEvent} {run : SchedulerRun} {name : WorkerName} {w w' : Worker}
  {order : Order} {round : Nat} {batch : Batch}

/-- Whatever a worker has after a step it had before, or got in this step. -/
structure Relays (y : Step Scheduler Move SchedulerEvent) (name : WorkerName) (w w' : Worker) :
    Prop where
  inbox : ∀ order, w'.inbox = some order → w.inbox = some order ∨ .handed name order ∈ y.events
  current : ∀ order round, w'.current = some (order, round) → w.current = some (order, round) ∨
    w.inbox = some order ∧ begins? y = some (name, order, round)
  batch : ∀ batch, w'.batch? = some batch → w.batch? = some batch ∨ ∃ order round b,
    w.current = some (order, round) ∧ .engine (.collected round b) ∈ y.events ∧
      batch = y.before.settings.transformed { b with state := order.state }

/-- The way of a batch: an order is handed to a worker, a round is begun for it, and the round ends. -/
structure Brings (settings : SchedulerSettings) (name : WorkerName) (order : Order)
    (b batch : Batch) (t : Step Scheduler Move SchedulerEvent) (between : History)
    (z : Step Scheduler Move SchedulerEvent) : Prop where
  handed : .handed name order ∈ t.events
  collected : ∃ round, (name, order, round) ∈ between.filterMap begins? ∧
    .engine (.collected round b) ∈ z.events
  batch : batch = settings.transformed { b with state := order.state }

/-- What a worker has goes back to an order that it was handed. -/
structure Traced (settings : SchedulerSettings) (history : History) (name : WorkerName) (w : Worker) :
    Prop where
  inbox : ∀ order, w.inbox = some order →
    ∃ earlier t later, history = earlier ++ t :: later ∧ .handed name order ∈ t.events
  current : ∀ order round, w.current = some (order, round) → ∃ earlier t later,
    history = earlier ++ t :: later ∧ .handed name order ∈ t.events ∧
      (name, order, round) ∈ later.filterMap begins?
  batch : ∀ batch, w.batch? = some batch → ∃ earlier t between z later order b,
    history = earlier ++ t :: between ++ z :: later ∧
      Brings settings name order b batch t between z

/-- A change to this plan, with a level of this name, has been activated for this state. -/
def Accords (history : History) (plan level : String) (state : InstanceState) : Prop :=
  ∃ change a, Activated history change ∧ acceptanceOf? history change = some a ∧
    a.plan.name = plan ∧ a.state = state ∧ ∃ l ∈ a.plan.levels.values, l.name = level

/-- The plan of this change is swapped in. -/
def SwapsIn (x : Step Scheduler Move SchedulerEvent) (change : Nat) : Prop :=
  ∃ id c, x.action = .act (.engine (.swap id .all)) ∧ x.before.changes.get? change = some c ∧
    c.stage = .applying id

/-- Where the labels of a batch are from, if the round for an order that step `t` hands out ends in
step `z`. -/
structure Labelling (earlier : History) (t : Step Scheduler Move SchedulerEvent) (between : History)
    (z : Step Scheduler Move SchedulerEvent) (order : Order) (b : Batch) : Prop where
  level : b.level = order.level
  scheduled : Accords earlier order.plan b.level order.state
  plan : b.plan = z.before.engine.livePlanName
  /-- The plan is that of a change that has been swapped in, maybe of another one. -/
  live : ∃ a ∈ accepted (earlier ++ t :: between), a.plan.name = b.plan ∧
    ∃ x ∈ earlier ++ t :: between, SwapsIn x a.change
  undisturbed : Coordinated (earlier ++ t :: between) → ¬ SwappedIn between →
    Accords earlier b.plan b.level order.state

/-- What goes to the sinks in step `y` has its labels from an order and from the live plan. -/
def Labelled (settings : SchedulerSettings) (history : History)
    (y : Step Scheduler Move SchedulerEvent) (name : WorkerName) (batch : Batch) : Prop :=
  ∃ earlier t between z later order b, history = earlier ++ t :: between ++ z :: later ∧
    y ∈ later ∧ Brings settings name order b batch t between z ∧
    Labelling earlier t between z order b

/-! ## One move -/

theorem Relays.refl : Relays y name w w := ⟨fun _ => .inl, fun _ _ => .inl, fun _ => .inl⟩

/-- A worker that goes on as it was may have got an order. -/
theorem relays_of_stage (hstage : w'.stage = w.stage)
    (hinbox : ∀ order, w'.inbox = some order →
      w.inbox = some order ∨ .handed name order ∈ y.events) : Relays y name w w' := by
  have hcurrent : w'.current = w.current := by rw [Worker.current, hstage, Worker.current]
  have hbatch : w'.batch? = w.batch? := by rw [Worker.batch?, hstage, Worker.batch?]
  exact ⟨hinbox, fun _ _ h => .inl (hcurrent ▸ h), fun _ h => .inl (hbatch ▸ h)⟩

/-- A worker that leaves off, or is new, has nothing. -/
theorem relays_of_nothing (hinbox : w'.inbox = none) (hcurrent : w'.current = none)
    (hbatch : w'.batch? = none) : Relays y name w w' :=
  ⟨by simp [hinbox], by simp [hcurrent], by simp [hbatch]⟩

theorem eq_of_batch?_sends {sinks : List String} {b : Batch}
    (h : (w.sends order batch sinks).batch? = some b) : b = batch := by
  unfold Worker.sends at h
  split at h
  · simp [Worker.batch?] at h
  · simpa [Worker.batch?, eq_comm] using h

/-- A worker begins to send, or goes on with it. -/
theorem relays_sends {sinks : List String} (h : w.batch? = some batch ∨ ∃ order round b,
      w.current = some (order, round) ∧ .engine (.collected round b) ∈ y.events ∧
        batch = y.before.settings.transformed { b with state := order.state }) :
    Relays y name w (w.sends order batch sinks) := by
  refine ⟨fun order hinbox => .inl ?_, by simp, fun b hb => ?_⟩
  · rwa [Worker.inbox_sends] at hinbox
  · rw [eq_of_batch?_sends hb]
    exact h

theorem relays_setWorker {taker : WorkerName} (hrun : y.before.run = some run)
    (hrun' : y.after.run = some (run.setWorker taker w))
    (relays : Relays y taker (run.worker taker) w) (name : WorkerName) :
    Relays y name (y.before.workerOf name) (y.after.workerOf name) := by
  rw [workerOf_setWorker hrun hrun']
  split
  · next hname =>
      subst hname
      rw [workerOf_of_run hrun]
      exact relays
  · exact .refl

/-- An offer leaves everybody at work, and only its taker gets the order. -/
theorem worker_offer (order : Order) (run : SchedulerRun) (names : List WorkerName)
    (name : WorkerName) :
    ((offer order run names).1.worker name).stage = (run.worker name).stage ∧
      (((offer order run names).1.worker name).inbox = (run.worker name).inbox ∨
        (offer order run names).2 = some name ∧
          ((offer order run names).1.worker name).inbox = some order) := by
  induction names generalizing run with
  | nil => exact ⟨rfl, .inl rfl⟩
  | cons first rest ih =>
      simp only [offer]
      split
      · exact ih run
      · split
        · rw [SchedulerRun.worker_setWorker]
          split
          · next hname =>
              subst hname
              exact ⟨rfl, .inr ⟨rfl, rfl⟩⟩
          · exact ⟨rfl, .inl rfl⟩
        · -- the flag goes down, and the order is still to be had
          have hsame : ∀ w : Worker, w.stage = (run.worker first).stage →
              w.inbox = (run.worker first).inbox →
              ((run.setWorker first w).worker name).stage = (run.worker name).stage ∧
                ((run.setWorker first w).worker name).inbox = (run.worker name).inbox := by
            intro w hstage hinbox
            rw [SchedulerRun.worker_setWorker]
            split
            · next hname => exact hname ▸ ⟨hstage, hinbox⟩
            · exact ⟨rfl, rfl⟩
          obtain ⟨hstage, hinbox⟩ := hsame { run.worker first with idle := false } rfl rfl
          have hrest := ih (run.setWorker first { run.worker first with idle := false })
          rw [hstage, hinbox] at hrest
          exact hrest

theorem relays_of_offer {run' : SchedulerRun} {ticks : Nat} {taker? : Option WorkerName}
    (hrun : y.before.run = some run)
    (hoffer : offer order { run with ticks } [.primary, .secondary] = (run', taker?))
    (hrun' : y.after.run = some run')
    (hevents : ∀ name, taker? = some name → .handed name order ∈ y.events) (name : WorkerName) :
    Relays y name (y.before.workerOf name) (y.after.workerOf name) := by
  obtain ⟨hstage, hinbox⟩ := worker_offer order { run with ticks } [.primary, .secondary] name
  rw [hoffer, SchedulerRun.worker_ticks] at hstage hinbox
  rw [workerOf_of_run hrun, workerOf_of_run hrun']
  refine relays_of_stage hstage fun given hgiven => ?_
  rcases hinbox with hsame | ⟨htaker, hnew⟩
  · exact .inl (hsame ▸ hgiven)
  · obtain rfl := Option.some.inj (hnew.symm.trans hgiven)
    exact .inr (hevents name htaker)

theorem relays_of_drives (drives : Drives y.before y.after y.action (worked y.events))
    (name : WorkerName) : Relays y name (y.before.workerOf name) (y.after.workerOf name) := by
  have same : y.after.run = y.before.run →
      Relays y name (y.before.workerOf name) (y.after.workerOf name) := fun hsame => by
    rw [workerOf, workerOf, hsame]
    exact .refl
  generalize hraised : worked y.events = raised at drives
  have raises : ∀ {event}, event ∈ raised → event ∈ y.events := fun h =>
    List.mem_of_mem_filter (hraised ▸ h)
  generalize haction : y.action = action at drives
  cases drives with
  | aside _ hsame => exact same hsame
  | starts _ hrun' =>
      rw [workerOf_of_run hrun']
      cases name <;> exact relays_of_nothing rfl rfl rfl
  | halts hrun hrun' _ _ _ _ _ hworkers =>
      rw [workerOf_of_run hrun, workerOf_of_run hrun']
      rcases hworkers name with hsame | hstopped
      · rw [hsame]
        exact .refl
      · rw [hstopped]
        exact relays_of_nothing rfl rfl rfl
  | closes _ _ _ _ _ hrun' =>
      have hsame : y.after.workerOf name = y.before.workerOf name := by
        rw [workerOf, workerOf, hrun']
        cases y.before.run with
        | none => rfl
        | some run => exact SchedulerRun.worker_stage ..
      rw [hsame]
      exact .refl
  | finishes _ _ hnone =>
      rw [workerOf, workerOf, hnone]
      exact relays_of_nothing rfl rfl rfl
  | passes hrun _ _ hrun' =>
      rw [workerOf_ticks hrun hrun']
      exact .refl
  | hands hrun _ _ hoffer hrun' =>
      refine relays_of_offer hrun hoffer hrun' (fun name hname => ?_) name
      obtain rfl := Option.some.inj hname
      exact raises (List.mem_singleton_self _)
  | drops hrun _ _ hoffer hrun' => exact relays_of_offer hrun hoffer hrun' (by simp) name
  | readies hrun hstarting hrun' =>
      refine relays_setWorker hrun hrun' ⟨fun _ => .inl, ?_, ?_⟩ name <;>
        simp [Worker.current, Worker.batch?]
  | @takes run taker order hrun _ hinbox hrun' =>
      have hbegins : begins? y = some (taker, order, y.before.engine.nextId) := by
        rw [begins?_of_takes haction, workerOf_of_run hrun', SchedulerRun.worker_setWorker_self]
        rfl
      refine relays_setWorker hrun hrun' ⟨by simp, fun given round hcurrent => ?_, ?_⟩ name
      · obtain ⟨rfl, rfl⟩ : order = given ∧ y.before.engine.nextId = round := by
          simpa [Worker.current] using hcurrent
        exact .inr ⟨hinbox, hbegins⟩
      · simp [Worker.batch?]
  | goesOn hsame => exact same hsame
  | @collects _ id _ batch _ _ order hrun hcollecting hrun' =>
      have hcurrent := Worker.current_eq_some.2 hcollecting
      have hcollected : .engine (.collected id batch) ∈ y.events :=
        raises (List.mem_singleton_self _)
      exact relays_setWorker hrun hrun'
        (relays_sends (.inr ⟨order, id, batch, hcurrent, hcollected, rfl⟩)) name
  | unclaimed _ hsame => exact same hsame
  | delivers hrun hsending hrun' =>
      refine relays_setWorker hrun hrun' (relays_sends (.inl ?_)) name
      rw [Worker.batch?, hsending]

/-- Only what a worker is sending goes to a sink. -/
theorem batch?_of_delivered (taken : y.before.move y.action = some (y.after, y.events))
    {sink : String} (sent : .delivered name sink batch ∈ y.events) :
    (y.before.workerOf name).batch? = some batch := by
  have drives := drives_of_move taken
  have sent : .delivered name sink batch ∈ worked y.events := List.mem_filter.2 ⟨sent, rfl⟩
  generalize worked y.events = raised at drives sent
  generalize y.action = action at drives
  cases drives with
  | @delivers _ sender order _ _ sinks hrun hsending =>
      obtain ⟨rfl, rfl, rfl⟩ : name = sender ∧ sink = _ ∧ batch = _ := by simpa using sent
      rw [workerOf_of_run hrun, Worker.batch?, hsending]
  | _ => simp at sent

/-- A batch is labelled with the plan that is live when it is there, and with the level of its
round. -/
theorem labels_of_collected (whole : Whole s.engine) {action : Move}
    (taken : s.move action = some (s', events)) (h : .engine (.collected round batch) ∈ events) :
    (∀ id, action ≠ .act (.engine (.swap id .all))) ∧ batch.plan = s.engine.livePlanName ∧
      ∃ r, s.engine.rounds.get? round = some r ∧ batch.level = r.level := by
  have drives := drives_of_move taken
  have hworked : .engine (.collected round batch) ∈ worked events := List.mem_filter.2 ⟨h, rfl⟩
  obtain ⟨inner, rfl⟩ : ∃ inner, action = .act (.engine inner) := by
    generalize worked events = raised at drives hworked
    cases drives with
    | collects => exact ⟨_, rfl⟩
    | unclaimed => exact ⟨_, rfl⟩
    | _ => simp at hworked
  obtain ⟨-, engine, raised, hstep, hnext⟩ := engineStep_eq_some taken
  have hraised : .collected round batch ∈ raised :=
    (mem_reactAll (s := { s with engine })).1 ((Prod.mk.inj hnext).2 ▸ h)
  obtain ⟨r, now, hr, ⟨rfl, -, rfl⟩ | ⟨plan, began, tasks, rfl, hstage, -, rfl⟩⟩ :=
    Engine.collected_step hstep hraised
  · exact ⟨by simp, rfl, r, hr, rfl⟩
  · have hplan := (whole.complete.rounds round r hr (by simp [hstage, RoundStage.isQueued])).1
    rw [hstage] at hplan
    exact ⟨by simp, Option.some.inj hplan, r, hr, rfl⟩

/-! ## Runs -/

variable {settings : SchedulerSettings} {engine : EngineSettings} {board : Board} {store : PlanStore}
  {sinks : List String} {last : Scheduler}

theorem Traced.snoc (h : Traced y.before.settings history name w) (relays : Relays y name w w') :
    Traced y.before.settings (history ++ [y]) name w' := by
  refine ⟨fun order horder => ?_, fun order round hcurrent => ?_, fun batch hbatch => ?_⟩
  · rcases relays.inbox order horder with hold | hnew
    · obtain ⟨earlier, t, later, rfl, handed⟩ := h.inbox order hold
      exact ⟨earlier, t, later ++ [y], by simp, handed⟩
    · exact ⟨history, y, [], rfl, hnew⟩
  · rcases relays.current order round hcurrent with hold | ⟨hinbox, hbegins⟩
    · obtain ⟨earlier, t, later, rfl, handed, begun⟩ := h.current order round hold
      refine ⟨earlier, t, later ++ [y], by simp, handed, ?_⟩
      rw [List.filterMap_append]
      exact List.mem_append_left _ begun
    · obtain ⟨earlier, t, later, rfl, handed⟩ := h.inbox order hinbox
      refine ⟨earlier, t, later ++ [y], by simp, handed, ?_⟩
      rw [List.filterMap_append]
      exact List.mem_append_right _ (by simp [hbegins])
  · rcases relays.batch batch hbatch with hold | ⟨order, round, b, hcurrent, hcollected, rfl⟩
    · obtain ⟨earlier, t, between, z, later, order, b, rfl, brings⟩ := h.batch batch hold
      exact ⟨earlier, t, between, z, later ++ [y], order, b, by simp, brings⟩
    · obtain ⟨earlier, t, later, rfl, handed, begun⟩ := h.current order round hcurrent
      exact ⟨earlier, t, later, y, [], order, b, rfl, handed, ⟨round, begun, hcollected⟩, rfl⟩

theorem traced_of_run
    (run : Run Scheduler.move (create settings (.create engine board) store sinks) history last)
    (name : WorkerName) :
    last.settings = settings ∧ Traced settings history name (last.workerOf name) := by
  induction run with
  | nil =>
      have hnew : (create settings (.create engine board) store sinks).workerOf name = {} := rfl
      rw [hnew]
      exact ⟨rfl, by simp, by simp [Worker.current], by simp [Worker.batch?]⟩
  | @snoc history s s' action events run taken ih =>
      obtain ⟨rfl, traced⟩ := ih
      exact ⟨(fixed_of_move taken).settings, traced.snoc (y := ⟨s, action, s', events⟩)
        (relays_of_drives (y := ⟨s, action, s', events⟩) (drives_of_move taken) name)⟩

theorem Accords.of_order (recorded : Recorded history s) {tick : Nat}
    (horder : s.orderAt tick = some order) :
    Accords history order.plan order.level order.state := by
  obtain ⟨-, level, state, hdue, hstate, rfl⟩ := orderAt_eq_some horder
  have hlevel : level ∈ s.active.levels := List.mem_reverse.1 (List.mem_of_find?_eq_some hdue)
  rw [recorded.active] at hlevel hstate
  cases hlast : (activations history).getLast? with
  | none => simp [inForce, hlast] at hstate
  | some change =>
      have hchange := List.mem_of_getLast? hlast
      obtain ⟨a, ha⟩ := recorded.activated change hchange
      rw [inForce_of_getLast hlast ha] at hlevel hstate
      obtain ⟨x, -, hx⟩ := List.mem_filterMap.1 (mem_of_acceptanceOf? ha).1
      obtain ⟨-, name, stage, -, hfound⟩ := caller_of_acceptance hx
      obtain ⟨plan, hsort⟩ := sort_of_findSorted hfound
      obtain ⟨l, hl, rfl⟩ :=
        List.mem_map.1 ((Plan.ascending_of_sort hsort).all.mem_iff.1 hlevel)
      refine ⟨change, a, mem_activations.1 hchange, ha, ?_, Option.some.inj hstate, l, hl, rfl⟩
      rw [recorded.active, inForce_of_getLast hlast ha]
      rfl

/-- What is live has been swapped in for a change that was accepted. -/
theorem swapsIn_of_live
    (run : Run Scheduler.move (create settings (.create engine board) store sinks) history last)
    {plan : Plan} (hplan : last.engine.live.plan = some plan) :
    ∃ a ∈ accepted history, a.plan = plan ∧ ∃ x ∈ history, SwapsIn x a.change := by
  induction run with
  | nil => simp [create, say, setStatus, Engine.create, Engine.say] at hplan
  | @snoc history s s' action events run taken ih =>
      have later : (∃ a ∈ accepted history, a.plan = plan ∧ ∃ x ∈ history, SwapsIn x a.change) →
          ∃ a ∈ accepted (history ++ [⟨s, action, s', events⟩]), a.plan = plan ∧
            ∃ x ∈ history ++ [⟨s, action, s', events⟩], SwapsIn x a.change := by
        rintro ⟨a, ha, hsame, x, hx, hswaps⟩
        refine ⟨a, ?_, hsame, x, List.mem_append_left _ hx, hswaps⟩
        rw [accepted_snoc]
        exact List.mem_append_left _ ha
      by_cases hswap : ∃ id, action = .act (.engine (.swap id .all))
      · obtain ⟨id, rfl⟩ := hswap
        have linked := linked_of_run (linked_create settings engine board store sinks) run
        have hstep : s.engineStep (.swap id .all) = some (s', events) := taken
        obtain ⟨-, engine, raised, hswap, hnext⟩ := engineStep_eq_some hstep
        obtain ⟨board, hboard⟩ := (keeps_reactAll (s := { s with engine }) raised).engine
        have hswap : s.engine.swap id .all = some (engine, raised) := hswap
        obtain ⟨p, hp, -, -, ⟨⟩⟩ := Engine.swap_all_eq_some hswap
        rw [← hnext] at hboard
        rw [hboard] at hplan
        obtain rfl : p.plan = plan := Option.some.inj hplan
        obtain ⟨change, c, hc, happlying⟩ := linked.owned id p hp
        obtain ⟨q, hq, hsame, -⟩ := linked.applying change c id hc happlying
        obtain rfl := Option.some.inj (hp.symm.trans hq)
        obtain ⟨a, ha, -, hrecorded⟩ := (recorded_of_run run).known change c hc
        obtain ⟨hmem, rfl⟩ := mem_of_acceptanceOf? ha
        refine ⟨a, ?_, (hsame.trans hrecorded).symm, _,
          List.mem_append_right _ (List.mem_singleton_self _), id, c, rfl, hc, happlying⟩
        rw [accepted_snoc]
        exact List.mem_append_left _ hmem
      · rw [live_of_not_swap taken (not_exists.1 hswap)] at hplan
        exact later (ih hplan)

/-- Nothing is scheduled before something is live. -/
theorem live_of_scheduled
    (run : Run Scheduler.move (create settings (.create engine board) store sinks) history last) :
    (∀ id plan, last.unscheduled? id = some plan → last.engine.live.plan ≠ none) ∧
      (last.active.state ≠ none → last.engine.live.plan ≠ none) := by
  induction run with
  | nil => exact ⟨by simp [unscheduled?, create, say, setStatus, Engine.create, Engine.say],
      fun h => absurd rfl h⟩
  | snoc run taken ih =>
      obtain ⟨hwaiting, hactive⟩ := ih
      have linked := linked_of_run (linked_create settings engine board store sinks) run
      cases shifts_of_move linked taken with
      | keeps hsame hlive hkept =>
          simp only [hsame, hlive, hkept]
          exact ⟨hwaiting, hactive⟩
      | swaps _ _ _ hlive => simp [hlive]
      | schedules _ hwas _ hlive =>
          have hsome := hwaiting _ _ hwas
          rw [hlive]
          exact ⟨fun _ _ _ => hsome, fun _ => hsome⟩

theorem labelling_of_run {t z : Step Scheduler Move SchedulerEvent} {earlier between : History}
    {b : Batch}
    (run : Run Scheduler.move (create settings (.create engine board) store sinks)
      (earlier ++ t :: between) z.before)
    (taken : z.before.move z.action = some (z.after, z.events))
    (brings : Brings settings name order b batch t between z) :
    Labelling earlier t between z order b := by
  obtain ⟨handed, ⟨round, begun, collected⟩, -⟩ := brings
  obtain ⟨before, handing, following⟩ := run.taken
  obtain ⟨htick, tick, horder⟩ := order_of_handed handing handed
  obtain ⟨-, hplan, r, hr, hround⟩ := labels_of_collected (whole_of_run run) taken collected
  have hlevel := hround.trans ((level_of_begun following begun).2 r hr)
  have accords := Accords.of_order (recorded_of_run before) horder
  rw [← hlevel] at accords
  refine ⟨hlevel, accords, hplan, ?_, fun coordinated hnone => ?_⟩
  · -- what was live when the order was handed out may have been replaced, but not by nothing
    obtain ⟨-, -, state, -, hstate, -⟩ := orderAt_eq_some horder
    have hsome : z.before.engine.live.plan ≠ none := by
      have hthen := (live_of_scheduled before).2 (by simp [hstate])
      rw [Ne, live_eq_none_iff before, not_not] at hthen
      obtain ⟨x, hx, hswap⟩ := hthen
      rw [Ne, live_eq_none_iff run, not_not]
      exact ⟨x, List.mem_append_left _ hx, hswap⟩
    obtain ⟨plan, hlive⟩ := Option.ne_none_iff_exists'.1 hsome
    obtain ⟨a, ha, rfl, hswapped⟩ := swapsIn_of_live run hlive
    refine ⟨a, ha, ?_, hswapped⟩
    rw [hplan, Engine.livePlanName, hlive]
    rfl
  · have hoffers := offers_until_swap run (fun x hx => coordinated.calm run hx) handed hnone
    rw [hplan, Engine.livePlanName, hoffers.name]
    exact accords

theorem labels_of_delivered
    (run : Run move (create settings (.create engine board) store sinks) history last)
    (hy : y ∈ history) {sink : String} (sent : .delivered name sink batch ∈ y.events) :
    Labelled settings history y name batch := by
  obtain ⟨pre, post, rfl⟩ := List.append_of_mem hy
  obtain ⟨before, taken, -⟩ := run.taken
  obtain ⟨-, traced⟩ := traced_of_run before name
  obtain ⟨earlier, t, between, z, later, order, b, rfl, brings⟩ :=
    traced.batch batch (batch?_of_delivered taken sent)
  obtain ⟨shorter, collecting, -⟩ := before.taken
  exact ⟨earlier, t, between, z, later ++ y :: post, order, b, by simp, by simp, brings,
    labelling_of_run shorter collecting brings⟩

/-! ## Two runs -/

/-- The sinks and the labels of what a worker has sent. -/
def sentLabels (name : WorkerName) (history : History) :
    List (String × String × String × InstanceState) :=
  (ledger name history).sent.map (fun (sink, b) => (sink, b.plan, b.level, b.state))

theorem delivered_of_sentLabels {sink plan level : String} {state : InstanceState}
    (h : (sink, plan, level, state) ∈ sentLabels name history) :
    ∃ y ∈ history, ∃ batch, .delivered name sink batch ∈ y.events ∧ batch.plan = plan ∧
      batch.level = level ∧ batch.state = state := by
  obtain ⟨⟨_, batch⟩, hsent, ⟨⟩⟩ := List.mem_map.1 h
  obtain ⟨y, hy, hsent⟩ := List.mem_flatMap.1 hsent
  obtain ⟨event, hevent, hsent⟩ := List.mem_filterMap.1 hsent
  cases event with
  | delivered sender other b =>
      obtain ⟨rfl, rfl, rfl⟩ : sender = name ∧ other = sink ∧ b = batch := by
        simpa [SchedulerEvent.sentBy?] using hsent
      exact ⟨y, hy, b, hevent, rfl, rfl, rfl⟩
  | _ => simp [SchedulerEvent.sentBy?] at hsent

/-- Another plan with the same level. -/
def twoPlans : PlanStore :=
  oneDomain.add (.ofLevels "q" "inline" (.ofList [
    ("kpi", { freq := "1s", collect := .ofList [("cpu", {})] })]))

/-- The order is collected for and the batch sent. -/
def sentOff (round : Nat) : List Move :=
  [.act (.takeOrder .primary)] ++
    ([.enter round default, .startTask round "cpu", .finishTask round "cpu" (.values []),
      .close round default] : List EngineAction).map (.act ∘ .engine) ++
    [.act (.delivered .primary)]

def beforeLabels : Scheduler := create {} (.create {} ∅) twoPlans ["log"]

def timelyRun : History × Scheduler := Run.follow move beforeLabels (handedOut ++ sentOff 1)

theorem labels_of_delivered_timely :
    ∃ y ∈ timelyRun.1, ∃ batch, .delivered .primary "log" batch ∈ y.events ∧
      (batch.plan = "p" ∧ batch.level = "kpi" ∧ batch.state = .active) ∧
      Coordinated timelyRun.1 ∧ Labelled {} timelyRun.1 y .primary batch := by
  have hrun : Run move beforeLabels timelyRun.1 timelyRun.2 := Run.of_follow ..
  have hlabels : ("log", "p", "kpi", .active) ∈ sentLabels .primary timelyRun.1 := by
    decide +kernel
  obtain ⟨y, hy, batch, hsent, hlabels⟩ := delivered_of_sentLabels hlabels
  exact ⟨y, hy, batch, hsent, hlabels, .inl (stays_of_none_dropped (by decide +kernel)),
    labels_of_delivered hrun hy hsent⟩

def belatedRun : History × Scheduler :=
  Run.follow move beforeLabels (handedOut ++ replaced ++ sentOff 2)

/-- The order waits in front of the worker while another plan is swapped in for another state: the
batch has the state of the one and the plan of the other, for which no change was made. -/
theorem labels_of_two_changes :
    Run move (create {} (.create {} ∅) twoPlans ["log"]) belatedRun.1 belatedRun.2 ∧
      Coordinated belatedRun.1 ∧ ∃ y ∈ belatedRun.1, ∃ batch,
        .delivered .primary "log" batch ∈ y.events ∧
        (batch.plan = "q" ∧ batch.level = "kpi" ∧ batch.state = .active) ∧
        ¬ Accords belatedRun.1 batch.plan batch.level batch.state := by
  have hlabels : ("log", "q", "kpi", .active) ∈ sentLabels .primary belatedRun.1 := by
    decide +kernel
  have hactivated : activations belatedRun.1 = [1, 3] := by decide +kernel
  have hfirst : (acceptanceOf? belatedRun.1 1).map (fun a => (a.plan.name, a.state)) =
      some ("p", .active) := by decide +kernel
  have hsecond : (acceptanceOf? belatedRun.1 3).map (fun a => (a.plan.name, a.state)) =
      some ("q", .standby) := by decide +kernel
  obtain ⟨y, hy, batch, hsent, hq, hkpi, hactive⟩ := delivered_of_sentLabels hlabels
  refine ⟨Run.of_follow .., .inl (stays_of_none_dropped (by decide +kernel)), y, hy, batch, hsent,
    ⟨hq, hkpi, hactive⟩, ?_⟩
  rintro ⟨change, a, hchange, ha, hplan, hstate, -⟩
  rw [← mem_activations, hactivated] at hchange
  have hlabels : (acceptanceOf? belatedRun.1 change).map (fun a => (a.plan.name, a.state)) =
      some ("q", .active) := by rw [ha, Option.map_some, hplan, hstate, hq, hactive]
  obtain rfl | rfl : change = 1 ∨ change = 3 := by simpa using hchange
  · simp [hfirst] at hlabels
  · simp [hsecond] at hlabels

end Scheduler

end Cadence
