import Cadence.Proofs.Scheduler.Driving

/-!
# The ledgers of the workers

A ledger for each worker, kept along a run: which orders it was handed, which
rounds it began and has collected, and what it has sent where.  At any time the
entries differ only by what is in front of the worker and in its hands, so no
order is lost and none is worked on twice.
-/

namespace Cadence

/-- A round that is over: what it was for, its number, and the batch it brought. -/
structure Collection where
  order : Order
  round : Nat
  batch : Batch

/-- The batch as the sinks get it: with the state of the order, and then transformed once if there is
a transform. -/
def Collection.outgoing (settings : SchedulerSettings) (c : Collection) : Batch :=
  match settings.transform with
  | none => { c.batch with state := c.order.state }
  | some transform => transform { c.batch with state := c.order.state }

theorem Collection.transformed_eq (settings : SchedulerSettings) (c : Collection) :
    settings.transformed { c.batch with state := c.order.state } = c.outgoing settings := by
  unfold SchedulerSettings.transformed outgoing
  cases settings.transform <;> rfl

/-- The orders a worker was handed, the rounds it began, those it has collected, and what it has sent
to which sink. -/
structure Ledger where
  handed : List Order := []
  begun : List (Order × Nat) := []
  collected : List Collection := []
  sent : List (String × Batch) := []

namespace Ledger

instance : Append Ledger where
  append a b :=
    { handed := a.handed ++ b.handed
      begun := a.begun ++ b.begun
      collected := a.collected ++ b.collected
      sent := a.sent ++ b.sent }

variable (a b : Ledger)

@[simp] theorem handed_append : (a ++ b).handed = a.handed ++ b.handed := rfl

@[simp] theorem begun_append : (a ++ b).begun = a.begun ++ b.begun := rfl

@[simp] theorem collected_append : (a ++ b).collected = a.collected ++ b.collected := rfl

@[simp] theorem sent_append : (a ++ b).sent = a.sent ++ b.sent := rfl

/-- The entries of a worker, given how it stands. -/
structure Balances (settings : SchedulerSettings) (sinks : List String) (total : Ledger)
    (w : Worker) : Prop where
  handed : total.handed = total.begun.map (·.1) ++ w.inbox.toList
  begun : total.begun = total.collected.map (fun c => (c.order, c.round)) ++ w.current.toList
  level : ∀ c ∈ total.collected, c.batch.level = c.order.level
  sent : total.sent ++ w.pending =
    total.collected.flatMap (fun c => sinks.map (·, c.outgoing settings))

end Ledger

namespace SchedulerEvent

def handedTo? (name : WorkerName) : SchedulerEvent → Option Order
  | handed taker order => if taker = name then some order else none
  | _ => none

def sentBy? (name : WorkerName) : SchedulerEvent → Option (String × Batch)
  | delivered sender sink batch => if sender = name then some (sink, batch) else none
  | _ => none

def collected? : SchedulerEvent → Option (Nat × Batch)
  | engine (.collected round batch) => some (round, batch)
  | _ => none

end SchedulerEvent

namespace Worker

/-- The round that is over, if it is the one the worker collects. -/
def collection? (w : Worker) (event : SchedulerEvent) : Option Collection :=
  w.current.bind (fun (order, round) => event.collected?.bind (fun (ended, batch) =>
    if ended = round then some { order, round, batch } else none))

end Worker

namespace Scheduler

def workerOf (s : Scheduler) (name : WorkerName) : Worker :=
  (s.run.map (·.worker name)).getD {}

/-- The round that a step begins, and for whom. -/
def begins? (y : Step Scheduler Move SchedulerEvent) : Option (WorkerName × Order × Nat) :=
  match y.action with
  | .act (.takeOrder name) => (y.after.workerOf name).current.map (name, ·)
  | _ => none

def ledger (name : WorkerName) (history : History) : Ledger where
  handed := history.flatMap (·.events.filterMap (·.handedTo? name))
  begun := (history.filterMap begins?).filterMap (fun b => if b.1 = name then some b.2 else none)
  collected := history.flatMap (fun y => y.events.filterMap (y.before.workerOf name).collection?)
  sent := history.flatMap (·.events.filterMap (·.sentBy? name))

def roundsBegun (history : History) : List Nat := (history.filterMap begins?).map (·.2.2)

def roundsCollected (history : History) : List Nat :=
  history.flatMap (fun y => (y.events.filterMap (·.collected?)).map (·.1))

/-- What a worker does in one step, and how it stands then. -/
inductive Labors (s : Scheduler) (w : Worker) : Ledger → Worker → Prop
  | rests : Labors s w {} w
  | readies : w.stage = .starting → Labors s w {} { w with stage := .waiting, idle := true }
  | accepts {order : Order} : w.Free →
      Labors s w { handed := [order] } { w with idle := false, inbox := some order }
  | takes {order : Order} : w.stage = .waiting → w.inbox = some order →
      Labors s w { begun := [(order, s.engine.nextId)] }
        { w with stage := .collecting order s.engine.nextId, inbox := none }
  | collects {c : Collection} : w.stage = .collecting c.order c.round →
      c.batch.level = c.order.level → Labors s w { collected := [c] }
        (w.sends c.order (c.outgoing s.settings) s.sinks)
  | delivers {order : Order} {batch : Batch} {sink : String} {sinks : List String} :
      w.stage = .sending order batch (sink :: sinks) →
      Labors s w { sent := [(sink, batch)] } (w.sends order batch sinks)

/-! ## Workers -/

section Workers

variable {s : Scheduler} {w w' : Worker} {entry : Ledger}

theorem Labors.sound (labors : Labors s w entry w') (sound : w.Sound) : w'.Sound := by
  cases labors with
  | rests => exact sound
  | readies hstarting =>
      have hinbox := sound.inbox_eq_none (by simp [hstarting])
      exact ⟨by simpa using ⟨rfl, hinbox⟩, by simp, by simp⟩
  | accepts hfree =>
      refine ⟨?_, fun _ _ => hfree.stage, sound.sending⟩
      simp only [Bool.false_eq_true, false_iff]
      exact fun hfree => absurd hfree.inbox (by simp)
  | takes hwaiting hinbox =>
      have hbusy : w.idle = false :=
        Bool.eq_false_iff.2 fun hidle => by simp [(sound.idle.1 hidle).inbox] at hinbox
      refine ⟨?_, by simp, by simp⟩
      simp only [hbusy, Bool.false_eq_true, false_iff]
      exact fun hfree => absurd hfree.stage (by simp)
  | collects hstage => exact sound.sends (by simp [hstage]) ..
  | delivers hstage => exact sound.sends (by simp [hstage]) ..

theorem Labors.balances {total : Ledger} (labors : Labors s w entry w')
    (h : total.Balances s.settings s.sinks w) :
    (total ++ entry).Balances s.settings s.sinks w' := by
  obtain ⟨handed, begun, level, sent⟩ := h
  cases labors with
  | rests =>
      exact ⟨by simpa using handed, by simpa using begun, by simpa using level, by simpa using sent⟩
  | readies hstarting =>
      have hcurrent : w.current = none := by simp [Worker.current, hstarting]
      have hpending : w.pending = [] := by simp [Worker.pending, hstarting]
      rw [hcurrent] at begun
      rw [hpending] at sent
      exact ⟨by simpa using handed, by simpa [Worker.current] using begun, by simpa using level,
        by simpa [Worker.pending] using sent⟩
  | accepts hfree =>
      rw [hfree.inbox] at handed
      exact ⟨by simpa using handed, by simpa [Worker.current] using begun, by simpa using level,
        by simpa [Worker.pending] using sent⟩
  | takes hwaiting hinbox =>
      have hcurrent : w.current = none := by simp [Worker.current, hwaiting]
      have hpending : w.pending = [] := by simp [Worker.pending, hwaiting]
      rw [hinbox] at handed
      rw [hcurrent] at begun
      rw [hpending] at sent
      exact ⟨by simpa using handed, by simpa [Worker.current] using begun, by simpa using level,
        by simpa [Worker.pending] using sent⟩
  | @collects c hstage hlevel =>
      have hcurrent : w.current = some (c.order, c.round) := by simp [Worker.current, hstage]
      have hpending : w.pending = [] := by simp [Worker.pending, hstage]
      rw [hcurrent] at begun
      rw [hpending] at sent
      refine ⟨?_, ?_, ?_, ?_⟩
      · simpa using handed
      · simpa using begun
      · simpa [or_imp, forall_and, hlevel] using level
      · simpa using sent
  | @delivers order batch sink sinks hstage =>
      have hcurrent : w.current = none := by simp [Worker.current, hstage]
      have hpending : w.pending = (sink, batch) :: sinks.map (·, batch) := by
        simp [Worker.pending, hstage]
      rw [hcurrent] at begun
      rw [hpending] at sent
      refine ⟨?_, ?_, by simpa using level, ?_⟩
      · simpa using handed
      · simpa using begun
      · simpa using sent

end Workers

/-! ## Workers of a run -/

/-- The run is on, and every round that a worker collects is open in the engine, for that worker
alone. -/
structure Manned (s : Scheduler) : Prop where
  going : ∃ run, s.run = some run ∧ run.stage = .ticking ∧ run.stopping = false
  sound : ∀ name, (s.workerOf name).Sound
  opened : ∀ name order round, (s.workerOf name).current = some (order, round) →
    ∃ r, s.engine.rounds.get? round = some r ∧ r.level = order.level
  apart : ∀ name name' order order' round, (s.workerOf name).current = some (order, round) →
    (s.workerOf name').current = some (order', round) → name = name'

variable {s s' : Scheduler} {run run' : SchedulerRun} {name : WorkerName} {w : Worker}
  {order : Order} {history : History} {y : Step Scheduler Move SchedulerEvent}

theorem workerOf_of_run (hrun : s.run = some run) (name : WorkerName) :
    s.workerOf name = run.worker name := by
  simp [workerOf, hrun]

theorem workerOf_setWorker (hrun : s.run = some run)
    (hrun' : s'.run = some (run.setWorker name w)) (other : WorkerName) :
    s'.workerOf other = if other = name then w else s.workerOf other := by
  rw [workerOf_of_run hrun', workerOf_of_run hrun, SchedulerRun.worker_setWorker]

theorem workerOf_ticks {ticks : Nat} (hrun : s.run = some run)
    (hrun' : s'.run = some { run with ticks }) (name : WorkerName) :
    s'.workerOf name = s.workerOf name := by
  rw [workerOf_of_run hrun', SchedulerRun.worker_ticks, workerOf_of_run hrun]

/-- The flag is right, so whoever is offered the order takes it if anybody can. -/
theorem offer_eq (sound : ∀ name, (run.worker name).Sound) (order : Order)
    (names : List WorkerName) :
    (∃ name ∈ names, (run.worker name).Free ∧ offer order run names =
      (run.setWorker name { run.worker name with idle := false, inbox := some order },
        some name)) ∨
    (∀ name ∈ names, ¬ (run.worker name).Free) ∧ offer order run names = (run, none) := by
  induction names with
  | nil => exact .inr ⟨by simp, rfl⟩
  | cons first rest ih =>
      cases hidle : (run.worker first).idle with
      | true =>
          have hfree := (sound first).idle.1 hidle
          refine .inl ⟨first, List.mem_cons_self, hfree, ?_⟩
          simp [offer, hidle, hfree.inbox]
      | false =>
          have hbusy : ¬ (run.worker first).Free := fun hfree => by
            simp [(sound first).idle.2 hfree] at hidle
          have hnext : offer order run (first :: rest) = offer order run rest := by
            simp [offer, hidle]
          rw [hnext]
          refine ih.imp ?_ ?_
          · rintro ⟨name, hname, hfree, hoffer⟩
            exact ⟨name, List.mem_cons_of_mem _ hname, hfree, hoffer⟩
          · rintro ⟨hnone, hoffer⟩
            exact ⟨by simpa [hbusy] using hnone, hoffer⟩

theorem mem_names (name : WorkerName) : name ∈ [WorkerName.primary, .secondary] := by
  cases name <;> simp

/-- An order handed over is in front of a worker that was free, and nothing else is changed. -/
theorem Manned.offer_some (h : s.Manned) (hrun : s.run = some run) {ticks : Nat}
    {taker : WorkerName}
    (hoffer : offer order { run with ticks } [.primary, .secondary] = (run', some taker)) :
    (s.workerOf taker).Free ∧ run' = ({ run with ticks } : SchedulerRun).setWorker taker
      { s.workerOf taker with idle := false, inbox := some order } := by
  have sound : ∀ name, (({ run with ticks } : SchedulerRun).worker name).Sound := fun name => by
    rw [SchedulerRun.worker_ticks, ← workerOf_of_run hrun]
    exact h.sound name
  rcases offer_eq sound order [.primary, .secondary] with ⟨name, -, hfree, htaken⟩ | ⟨-, hnobody⟩
  · obtain ⟨hrun', hname⟩ := Prod.mk.inj (htaken.symm.trans hoffer)
    obtain rfl := Option.some.inj hname
    rw [SchedulerRun.worker_ticks, ← workerOf_of_run hrun] at hfree hrun'
    exact ⟨hfree, hrun'.symm⟩
  · simp [hnobody] at hoffer

theorem Manned.offer_none (h : s.Manned) (hrun : s.run = some run) {ticks : Nat}
    (hoffer : offer order { run with ticks } [.primary, .secondary] = (run', none)) :
    (∀ name, ¬ (s.workerOf name).Free) ∧ run' = { run with ticks } := by
  have sound : ∀ name, (({ run with ticks } : SchedulerRun).worker name).Sound := fun name => by
    rw [SchedulerRun.worker_ticks, ← workerOf_of_run hrun]
    exact h.sound name
  rcases offer_eq sound order [.primary, .secondary] with ⟨name, -, -, htaken⟩ | ⟨hnone, hnobody⟩
  · simp [htaken] at hoffer
  · refine ⟨fun name hfree => hnone name (mem_names name) ?_, ?_⟩
    · rwa [SchedulerRun.worker_ticks, ← workerOf_of_run hrun]
    · exact (Prod.mk.inj (hnobody.symm.trans hoffer)).1.symm

theorem workerOf_offered {ticks : Nat} (hrun : s.run = some run)
    (hrun' : s'.run = some (({ run with ticks } : SchedulerRun).setWorker name w))
    (other : WorkerName) : s'.workerOf other = if other = name then w else s.workerOf other := by
  rw [workerOf_of_run hrun', workerOf_of_run hrun, SchedulerRun.worker_setWorker,
    SchedulerRun.worker_ticks]

theorem filterMap_worked {β : Type} {f : SchedulerEvent → Option β}
    (h : ∀ event, event.isWork = false → f event = none) (events : List SchedulerEvent) :
    (worked events).filterMap f = events.filterMap f := by
  rw [worked, List.filterMap_filter]
  refine List.filterMap_congr fun event _ => ?_
  cases hwork : event.isWork with
  | true => simp
  | false => simp [h event hwork]

theorem collected?_of_not_work {event : SchedulerEvent} (h : event.isWork = false) :
    event.collected? = none := by
  cases event with
  | engine inner => cases inner <;> first | rfl | contradiction
  | _ => rfl

/-- What one step comes to for a worker that stood like this. -/
def entry (begun : Option (WorkerName × Order × Nat)) (raised : List SchedulerEvent)
    (name : WorkerName) (w : Worker) : Ledger where
  handed := raised.filterMap (·.handedTo? name)
  begun := begun.toList.filterMap (fun b => if b.1 = name then some b.2 else none)
  collected := raised.filterMap w.collection?
  sent := raised.filterMap (·.sentBy? name)

theorem ledger_step (name : WorkerName) (y : Step Scheduler Move SchedulerEvent) :
    ledger name [y] = entry (begins? y) (worked y.events) name (y.before.workerOf name) := by
  have handed : ∀ event : SchedulerEvent, event.isWork = false → event.handedTo? name = none := by
    intro event h
    cases event <;> first | rfl | contradiction
  have sent : ∀ event : SchedulerEvent, event.isWork = false → event.sentBy? name = none := by
    intro event h
    cases event <;> first | rfl | contradiction
  have collected : ∀ event : SchedulerEvent, event.isWork = false →
      (y.before.workerOf name).collection? event = none := by
    intro event h
    simp [Worker.collection?, collected?_of_not_work h]
  rw [entry, filterMap_worked handed, filterMap_worked sent, filterMap_worked collected]
  cases hbegins : begins? y <;> simp [ledger, hbegins]

theorem ledger_append (name : WorkerName) (history more : History) :
    ledger name (history ++ more) = ledger name history ++ ledger name more := by
  simp only [ledger, List.flatMap_append, List.filterMap_append]
  rfl

theorem begins?_of_not_takes (h : ∀ name, y.action ≠ .act (.takeOrder name)) :
    begins? y = none := by
  unfold begins?
  split
  · next name haction => exact absurd haction (h name)
  · rfl

theorem begins?_of_takes (haction : y.action = .act (.takeOrder name)) :
    begins? y = (y.after.workerOf name).current.map (name, ·) := by
  unfold begins?
  rw [haction]

theorem collection?_of_current {round : Nat} {batch : Batch} (h : w.current = some (order, round)) :
    w.collection? (.engine (.collected round batch)) = some { order, round, batch } := by
  simp [Worker.collection?, SchedulerEvent.collected?, h]

theorem collection?_of_other {round : Nat} {batch : Batch}
    (h : ∀ order, w.current ≠ some (order, round)) :
    w.collection? (.engine (.collected round batch)) = none := by
  cases hcurrent : w.current with
  | none => simp [Worker.collection?, hcurrent]
  | some found =>
      obtain ⟨order, other⟩ := found
      have hother : round ≠ other := fun hsame => h order (hsame ▸ hcurrent)
      simp [Worker.collection?, SchedulerEvent.collected?, hcurrent, hother]

theorem entry_handed (taker name : WorkerName) (w : Worker) (order : Order) :
    entry none [.handed taker order] name w =
      if taker = name then { handed := [order] } else {} := by
  split <;> simp_all [entry, SchedulerEvent.handedTo?, SchedulerEvent.sentBy?, Worker.collection?,
    SchedulerEvent.collected?]

theorem entry_dropped (tick : Nat) (name : WorkerName) (w : Worker) :
    entry none [.droppedTick tick] name w = {} := by
  simp [entry, SchedulerEvent.handedTo?, SchedulerEvent.sentBy?, Worker.collection?,
    SchedulerEvent.collected?]

theorem entry_begun (taker name : WorkerName) (w : Worker) (begun : Order × Nat) :
    entry (some (taker, begun)) [] name w = if taker = name then { begun := [begun] } else {} := by
  split <;> simp_all [entry]

theorem entry_collected {round : Nat} {batch : Batch} (name : WorkerName)
    (h : w.current = some (order, round)) :
    entry none [.engine (.collected round batch)] name w =
      { collected := [{ order, round, batch }] } := by
  simp [entry, SchedulerEvent.handedTo?, SchedulerEvent.sentBy?, collection?_of_current h]

theorem entry_of_other {round : Nat} {batch : Batch} (name : WorkerName)
    (h : ∀ order, w.current ≠ some (order, round)) :
    entry none [.engine (.collected round batch)] name w = {} := by
  simp [entry, SchedulerEvent.handedTo?, SchedulerEvent.sentBy?, collection?_of_other h]

theorem entry_delivered (sender name : WorkerName) (w : Worker) (sink : String) (batch : Batch) :
    entry none [.delivered sender sink batch] name w =
      if sender = name then { sent := [(sink, batch)] } else {} := by
  split <;> simp_all [entry, SchedulerEvent.handedTo?, SchedulerEvent.sentBy?, Worker.collection?,
    SchedulerEvent.collected?]

section Step

variable {raised : List SchedulerEvent}

theorem Manned.not_halting (h : Manned s) (hrun : s.run = some run) {action : Move}
    (hstop : action ≠ .act .requestStop) :
    ¬ (action = .act .requestStop ∨ run.stopping = true ∨ run.stage ≠ .ticking) := by
  obtain ⟨same, hsame, hticking, hgoing⟩ := h.going
  obtain rfl := Option.some.inj (hsame.symm.trans hrun)
  simp [hstop, hticking, hgoing]

/-- A worker takes one step, and the other one rests. -/
theorem labors_setWorker {f : WorkerName → Ledger} (hrun : s.run = some run)
    (hrun' : s'.run = some (run.setWorker name w)) (labors : Labors s (run.worker name) (f name) w)
    (rest : ∀ other, other ≠ name → f other = {}) (other : WorkerName) :
    Labors s (s.workerOf other) (f other) (s'.workerOf other) := by
  rw [workerOf_setWorker hrun hrun']
  split
  · next hname =>
      subst hname
      rw [workerOf_of_run hrun]
      exact labors
  · next hother =>
      rw [rest other hother]
      exact .rests

theorem labors_of_drives (h : Manned y.before) (sole : y.before.Sole)
    (hstop : y.action ≠ .act .requestStop)
    (drives : Drives y.before y.after y.action (worked y.events)) (name : WorkerName) :
    Labors y.before (y.before.workerOf name) (ledger name [y]) (y.after.workerOf name) := by
  obtain ⟨run, hrun, hticking, -⟩ := h.going
  have rests : y.after.run = y.before.run → ∀ name,
      y.after.workerOf name = y.before.workerOf name := fun hsame name => by
    rw [workerOf, hsame, workerOf]
  rw [ledger_step]
  obtain ⟨before, action, after, events⟩ := y
  simp only at h sole hstop drives hrun rests ⊢
  generalize worked events = raised at drives
  have silent := begins?_of_not_takes (y := ⟨before, action, after, events⟩)
  simp only at silent
  cases drives with
  | aside hkind hsame =>
      rw [silent (by rintro name rfl; contradiction), rests hsame]
      exact .rests
  | starts hnone => simp [hnone] at hrun
  | halts hother _ hwhy => exact absurd hwhy (h.not_halting hother hstop)
  | closes turn => exact absurd turn (sole.not_turn hrun hticking _)
  | finishes hother hclosing =>
      obtain rfl := Option.some.inj (hrun.symm.trans hother)
      simp [hticking] at hclosing
  | passes hother _ _ hrun' =>
      obtain rfl := Option.some.inj (hrun.symm.trans hother)
      rw [silent (by simp), workerOf_ticks hrun hrun']
      exact .rests
  | hands hother _ _ hoffer hrun' =>
      obtain rfl := Option.some.inj (hrun.symm.trans hother)
      obtain ⟨hfree, rfl⟩ := h.offer_some hrun hoffer
      rw [silent (by simp), workerOf_offered hrun hrun', entry_handed]
      split
      · next hname =>
          subst hname
          rw [if_pos rfl]
          exact .accepts hfree
      · next hname =>
          rw [if_neg (Ne.symm hname)]
          exact .rests
  | drops hother _ _ hoffer hrun' =>
      obtain rfl := Option.some.inj (hrun.symm.trans hother)
      obtain ⟨-, rfl⟩ := h.offer_none hrun hoffer
      rw [silent (by simp), workerOf_ticks hrun hrun', entry_dropped]
      exact .rests
  | readies hother hstarting hrun' =>
      obtain rfl := Option.some.inj (hrun.symm.trans hother)
      rw [silent (by simp)]
      exact labors_setWorker (f := fun _ => {}) hrun hrun' (.readies hstarting) (fun _ _ => rfl) name
  | @takes _ taker order hother hwaiting hinbox hrun' =>
      obtain rfl := Option.some.inj (hrun.symm.trans hother)
      have hbegins : begins? (⟨before, .act (.takeOrder taker), after, events⟩ :
          Step Scheduler Move SchedulerEvent) = some (taker, order, before.engine.nextId) := by
        rw [begins?_of_takes rfl, workerOf_of_run hrun', SchedulerRun.worker_setWorker_self]
        rfl
      rw [hbegins, entry_begun]
      refine labors_setWorker (f := fun name => if taker = name then _ else {}) hrun hrun' ?_ ?_ name
      · rw [if_pos rfl]
        exact .takes hwaiting hinbox
      · exact fun other hother => if_neg (Ne.symm hother)
  | goesOn hsame =>
      rw [silent (by simp), rests hsame]
      exact .rests
  | @collects _ id r batch _ taker order hother hcollecting hrun' _ _ hr _ hlevel =>
      obtain rfl := Option.some.inj (hrun.symm.trans hother)
      have hcurrent : (before.workerOf taker).current = some (order, id) := by
        rw [workerOf_of_run hrun, Worker.current_eq_some]
        exact hcollecting
      obtain ⟨opened, hopened, hsame⟩ := h.opened taker order id hcurrent
      obtain rfl := Option.some.inj (hr.symm.trans hopened)
      rw [silent (by simp)]
      refine labors_setWorker
        (f := fun name => entry none [.engine (.collected id batch)] name (before.workerOf name))
        hrun hrun' ?_ ?_ name
      · rw [entry_collected taker hcurrent,
          Collection.transformed_eq before.settings { order, round := id, batch }]
        exact .collects hcollecting (hlevel.trans hsame)
      · intro other hother
        exact entry_of_other other fun order' hcurrent' =>
          hother (h.apart other taker _ _ id hcurrent' hcurrent)
  | unclaimed hnobody hsame =>
      rw [silent (by simp), rests hsame, entry_of_other name fun order hcurrent => ?_]
      · exact .rests
      · rw [workerOf_of_run hrun] at hcurrent
        exact hnobody _ _ _ hrun (Worker.current_eq_some.1 hcurrent)
  | @delivers _ sender order batch sink sinks hother hsending hrun' =>
      obtain rfl := Option.some.inj (hrun.symm.trans hother)
      rw [silent (by simp), entry_delivered]
      refine labors_setWorker (f := fun name => if sender = name then _ else {}) hrun hrun' ?_ ?_
        name
      · rw [if_pos rfl]
        exact .delivers hsending
      · exact fun other hother => if_neg (Ne.symm hother)

theorem Manned.of_currents (h : s.Manned) (going : ∃ run, s'.run = some run ∧
      run.stage = .ticking ∧ run.stopping = false)
    (sound : ∀ name, (s'.workerOf name).Sound)
    (current : ∀ name b, (s'.workerOf name).current = some b → (s.workerOf name).current = some b)
    (rounds : ∀ name order round r, (s'.workerOf name).current = some (order, round) →
      s.engine.rounds.get? round = some r →
      ∃ r', s'.engine.rounds.get? round = some r' ∧ r'.level = r.level) : s'.Manned where
  going := going
  sound := sound
  opened name order round hcurrent := by
    obtain ⟨r, hr, hlevel⟩ := h.opened name order round (current _ _ hcurrent)
    obtain ⟨r', hr', hsame⟩ := rounds name order round r hcurrent hr
    exact ⟨r', hr', hsame.trans hlevel⟩
  apart name name' order order' round hcurrent hcurrent' :=
    h.apart name name' order order' round (current _ _ hcurrent) (current _ _ hcurrent')

theorem going_setWorker {w : Worker} (hrun' : s'.run = some (run.setWorker name w))
    (hticking : run.stage = .ticking) (hgoing : run.stopping = false) :
    ∃ run, s'.run = some run ∧ run.stage = .ticking ∧ run.stopping = false :=
  ⟨_, hrun', by simp [hticking], by simp [hgoing]⟩

theorem current_setWorker (hrun : s.run = some run) (hrun' : s'.run = some (run.setWorker name w))
    (hcurrent : ∀ b, w.current = some b → (run.worker name).current = some b) (other : WorkerName)
    (b : Order × Nat) (h : (s'.workerOf other).current = some b) :
    (s.workerOf other).current = some b := by
  rw [workerOf_setWorker hrun hrun'] at h
  split at h
  · next hname =>
      subst hname
      rw [workerOf_of_run hrun]
      exact hcurrent b h
  · exact h

theorem Manned.takes (h : s.Manned) (below : s.RoundsBelow) (going : ∃ run, s'.run = some run ∧
      run.stage = .ticking ∧ run.stopping = false) (sound : ∀ name, (s'.workerOf name).Sound)
    (hworker : ∀ other, s'.workerOf other = if other = name then w else s.workerOf other)
    (hcurrent : w.current = some (order, s.engine.nextId))
    (hrounds : s'.engine.rounds = s.engine.rounds.insert s.engine.nextId { level := order.level }) :
    s'.Manned := by
  have fresh : ∀ other order', (s.workerOf other).current ≠ some (order', s.engine.nextId) := by
    intro other order' hother
    obtain ⟨r, hr, -⟩ := h.opened other order' _ hother
    exact Nat.lt_irrefl _ (below _ r hr)
  refine ⟨going, sound, ?_, ?_⟩
  · intro other order' round hother
    rw [hworker] at hother
    rw [hrounds, Table.get?_insert]
    split at hother
    · obtain ⟨rfl, rfl⟩ : order = order' ∧ s.engine.nextId = round := by
        simpa using hcurrent.symm.trans hother
      exact ⟨_, if_pos rfl, rfl⟩
    · have hround : round ≠ s.engine.nextId := by
        rintro rfl
        exact fresh other order' hother
      rw [if_neg hround]
      exact h.opened other order' round hother
  · intro first second order' order'' round hfirst hsecond
    rw [hworker] at hfirst hsecond
    split at hfirst <;> split at hsecond
    · next hname hname' => exact hname.trans hname'.symm
    · obtain ⟨-, rfl⟩ : order = order' ∧ s.engine.nextId = round := by
        simpa using hcurrent.symm.trans hfirst
      exact absurd hsecond (fresh second order'')
    · obtain ⟨-, rfl⟩ : order = order'' ∧ s.engine.nextId = round := by
        simpa using hcurrent.symm.trans hsecond
      exact absurd hfirst (fresh first order')
    · exact h.apart first second order' order'' round hfirst hsecond

theorem Manned.drives (h : s.Manned) (sole : s.Sole) (below : s.RoundsBelow) {action : Move}
    (hstop : action ≠ .act .requestStop) (drives : Drives s s' action raised)
    (sound : ∀ name, (s'.workerOf name).Sound) : s'.Manned := by
  obtain ⟨run, hrun, hticking, hgoing⟩ := h.going
  have same : s'.run = s.run → ∀ name b, (s'.workerOf name).current = some b →
      (s.workerOf name).current = some b := fun hsame name b hcurrent => by
    rwa [workerOf, hsame] at hcurrent
  have steady : s'.engine.rounds = s.engine.rounds → ∀ (name : WorkerName) order round r,
      (s'.workerOf name).current = some (order, round) → s.engine.rounds.get? round = some r →
      ∃ r', s'.engine.rounds.get? round = some r' ∧ r'.level = r.level :=
    fun hrounds _ _ _ r _ hr => ⟨r, hrounds ▸ hr, rfl⟩
  cases drives with
  | aside _ hsame _ hrounds =>
      exact h.of_currents ⟨run, hsame.trans hrun, hticking, hgoing⟩ sound (same hsame)
        (steady hrounds.rounds)
  | starts hnone => simp [hnone] at hrun
  | halts hother _ hwhy => exact absurd hwhy (h.not_halting hother hstop)
  | closes turn => exact absurd turn (sole.not_turn hrun hticking _)
  | finishes hother hclosing =>
      obtain rfl := Option.some.inj (hrun.symm.trans hother)
      simp [hticking] at hclosing
  | passes hother _ _ hrun' _ hengine =>
      obtain rfl := Option.some.inj (hrun.symm.trans hother)
      refine h.of_currents ⟨_, hrun', hticking, hgoing⟩ sound ?_ (steady (by rw [hengine]))
      intro name b hcurrent
      rwa [workerOf_ticks hrun hrun'] at hcurrent
  | hands hother _ _ hoffer hrun' _ hengine =>
      obtain rfl := Option.some.inj (hrun.symm.trans hother)
      obtain ⟨-, rfl⟩ := h.offer_some hrun hoffer
      refine h.of_currents (going_setWorker hrun' hticking hgoing) sound ?_
        (steady (by rw [hengine]))
      intro name b hcurrent
      rw [workerOf_offered hrun hrun'] at hcurrent
      split at hcurrent
      · next hname => exact hname ▸ hcurrent
      · exact hcurrent
  | drops hother _ _ hoffer hrun' _ hengine =>
      obtain rfl := Option.some.inj (hrun.symm.trans hother)
      obtain ⟨-, rfl⟩ := h.offer_none hrun hoffer
      refine h.of_currents ⟨_, hrun', hticking, hgoing⟩ sound ?_ (steady (by rw [hengine]))
      intro name b hcurrent
      rwa [workerOf_ticks hrun hrun'] at hcurrent
  | readies hother _ hrun' _ hrounds =>
      obtain rfl := Option.some.inj (hrun.symm.trans hother)
      exact h.of_currents (going_setWorker hrun' hticking hgoing) sound
        (current_setWorker hrun hrun' (by simp [Worker.current])) (steady hrounds.rounds)
  | takes hother _ _ hrun' _ hrounds =>
      obtain rfl := Option.some.inj (hrun.symm.trans hother)
      exact h.takes below (going_setWorker hrun' hticking hgoing) sound
        (workerOf_setWorker hrun hrun') rfl hrounds
  | @goesOn _ id r₀ _ hsame _ _ hr₀ hrounds hlevel =>
      refine h.of_currents ⟨run, hsame.trans hrun, hticking, hgoing⟩ sound (same hsame) ?_
      intro name order round r _ hr
      rw [hrounds, Table.get?_insert]
      split
      · next hround =>
          subst hround
          obtain rfl := Option.some.inj (hr.symm.trans hr₀)
          exact ⟨_, rfl, hlevel⟩
      · exact ⟨r, hr, rfl⟩
  | @collects _ id _ _ _ taker order hother hcollecting hrun' _ _ _ hrounds =>
      obtain rfl := Option.some.inj (hrun.symm.trans hother)
      have hcurrent : (s.workerOf taker).current = some (order, id) := by
        rw [workerOf_of_run hrun, Worker.current_eq_some]
        exact hcollecting
      have hafter := current_setWorker hrun hrun' (by simp)
      refine h.of_currents (going_setWorker hrun' hticking hgoing) sound hafter ?_
      intro name order' round r hname hr
      have hround : round ≠ id := by
        rintro rfl
        obtain rfl := h.apart name taker _ _ round (hafter _ _ hname) hcurrent
        rw [workerOf_setWorker hrun hrun', if_pos rfl, Worker.current_sends] at hname
        contradiction
      rw [hrounds, Table.get?_erase, if_neg hround]
      exact ⟨r, hr, rfl⟩
  | @unclaimed _ id _ _ hnobody hsame _ _ _ hrounds =>
      refine h.of_currents ⟨run, hsame.trans hrun, hticking, hgoing⟩ sound (same hsame) ?_
      intro name order round r hname hr
      have hround : round ≠ id := by
        rintro rfl
        have hcurrent := same hsame name _ hname
        rw [workerOf_of_run hrun] at hcurrent
        exact hnobody _ _ _ hrun (Worker.current_eq_some.1 hcurrent)
      rw [hrounds, Table.get?_erase, if_neg hround]
      exact ⟨r, hr, rfl⟩
  | delivers hother _ hrun' _ hrounds =>
      obtain rfl := Option.some.inj (hrun.symm.trans hother)
      exact h.of_currents (going_setWorker hrun' hticking hgoing) sound
        (current_setWorker hrun hrun' (by simp)) (steady hrounds.rounds)

end Step

end Scheduler

end Cadence
