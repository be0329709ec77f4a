import Cadence.Proofs.Scheduler.Labels
import Cadence.Proofs.Scheduler.Orphans

/-!
# What ends with a run

Every round of the engine is some worker's, and workers drop their rounds when
they stop, which they have when a run goes for the lock to end.  It gets the lock
after everybody who has asked before, because numbers are given out in the order
in which the lock is asked for.
-/

namespace Cadence

/-- The workers of the run have all been waited for. -/
def RunStage.isJoined : RunStage → Bool
  | settling _ | closing => true
  | _ => false

namespace Scheduler

variable {s s' : Scheduler} {run : SchedulerRun} {name : WorkerName} {w : Worker} {action : Move}
  {events raised : List SchedulerEvent} {id : Nat}

/-! ## Rounds -/

/-- Every round is one that a worker collects, and workers that have been waited for have stopped. -/
structure Attended (s : Scheduler) : Prop where
  rounds : ∀ id r, s.engine.rounds.get? id = some r →
    ∃ run name order, s.run = some run ∧ (run.worker name).stage = .collecting order id
  stopped : ∀ run, s.run = some run → run.stage.isJoined = true →
    ∀ name, (run.worker name).stage = .stopped

theorem Attended.eq_empty (h : s.Attended) (hrun : s.run = none) : s.engine.rounds = ∅ := by
  refine Table.ext_get? fun id => ?_
  cases hr : s.engine.rounds.get? id with
  | none => rfl
  | some r =>
      obtain ⟨run, name, order, hsome, -⟩ := h.rounds id r hr
      simp [hrun] at hsome

/-- A worker that stands elsewhere than at a round may go where it likes. -/
theorem Attended.setWorker (h : s.Attended) (hrun : s.run = some run)
    (hrun' : s'.run = some (run.setWorker name w))
    (hrounds : ∀ id r, s'.engine.rounds.get? id = some r →
      (∃ order, w.stage = .collecting order id) ∨ (∃ r, s.engine.rounds.get? id = some r) ∧
        ∀ order, (run.worker name).stage ≠ .collecting order id)
    (hstopped : (run.worker name).stage ≠ .stopped) : s'.Attended := by
  refine ⟨fun id r hr => ?_, fun run' hsame hjoined => ?_⟩
  · rcases hrounds id r hr with ⟨order, hcollecting⟩ | ⟨⟨r', hr'⟩, hother⟩
    · exact ⟨_, name, order, hrun', by rwa [SchedulerRun.worker_setWorker_self]⟩
    · obtain ⟨same, name', order, hsame, hcollecting⟩ := h.rounds id r' hr'
      obtain rfl := Option.some.inj (hrun.symm.trans hsame)
      refine ⟨_, name', order, hrun', ?_⟩
      have hne : name' ≠ name := by
        rintro rfl
        exact hother order hcollecting
      rwa [SchedulerRun.worker_setWorker, if_neg hne]
  · obtain rfl := Option.some.inj (hrun'.symm.trans hsame)
    rw [SchedulerRun.stage_setWorker] at hjoined
    exact absurd (h.stopped run hrun hjoined name) hstopped

/-- A tick leaves everybody where they are. -/
theorem Attended.ticked {run' : SchedulerRun} (h : s.Attended) (hrun : s.run = some run)
    (hrun' : s'.run = some run') (hengine : s'.engine = s.engine)
    (hstage : ∀ name, (run'.worker name).stage = (run.worker name).stage)
    (hticking : run'.stage = .ticking) : s'.Attended := by
  refine ⟨fun id r hr => ?_, fun same hsame hjoined => ?_⟩
  · rw [hengine] at hr
    obtain ⟨same, name, order, hsame, hcollecting⟩ := h.rounds id r hr
    obtain rfl := Option.some.inj (hrun.symm.trans hsame)
    exact ⟨run', name, order, hrun', (hstage name).trans hcollecting⟩
  · obtain rfl := Option.some.inj (hrun'.symm.trans hsame)
    simp [hticking, RunStage.isJoined] at hjoined

/-- Rounds may go, as long as everybody stays where they are. -/
theorem Attended.same (h : s.Attended) (hrun : s'.run = s.run)
    (hrounds : ∀ id r, s'.engine.rounds.get? id = some r → ∃ r, s.engine.rounds.get? id = some r) :
    s'.Attended := by
  refine ⟨fun id r hr => ?_, ?_⟩
  · obtain ⟨r', hr'⟩ := hrounds id r hr
    rw [hrun]
    exact h.rounds id r' hr'
  · rw [hrun]
    exact h.stopped

theorem Attended.offered {run' : SchedulerRun} {order : Order} {ticks : Nat}
    {taker? : Option WorkerName} (h : s.Attended) (hrun : s.run = some run)
    (hticking : run.stage = .ticking)
    (hoffer : offer order { run with ticks } [.primary, .secondary] = (run', taker?))
    (hrun' : s'.run = some run') (hengine : s'.engine = s.engine) : s'.Attended := by
  have hstage := stage_offer order { run with ticks } [.primary, .secondary]
  rw [hoffer] at hstage
  refine h.ticked hrun hrun' hengine (fun name => ?_) (hstage.trans hticking)
  have hworker := (worker_offer order { run with ticks } [.primary, .secondary] name).1
  rwa [hoffer, SchedulerRun.worker_ticks] at hworker

theorem Attended.drives (h : s.Attended) (sole : s.Sole) (drives : Drives s s' action raised) :
    s'.Attended := by
  have erased {id : Nat} {r : EngineRound} {k : Nat}
      (hrounds : s'.engine.rounds = s.engine.rounds.erase id)
      (hr : s'.engine.rounds.get? k = some r) : k ≠ id ∧ s.engine.rounds.get? k = some r := by
    rw [hrounds] at hr
    refine ⟨?_, Table.get?_of_get?_erase hr⟩
    rintro rfl
    simp [Table.get?_erase] at hr
  cases drives with
  | aside _ hrun _ hsame => exact h.same hrun fun id r hr => ⟨r, hsame.rounds ▸ hr⟩
  | starts hnone hrun' _ hengine =>
      refine ⟨fun id r hr => ?_, fun run hrun hjoined => ?_⟩
      · rw [hengine, h.eq_empty hnone] at hr
        simp at hr
      · obtain rfl := Option.some.inj (hrun'.symm.trans hrun)
        contradiction
  | @halts _ run run' hrun hrun' _ _ hclosing hold _ hworkers hdropped hsettles =>
      refine ⟨fun id r hr => ?_, fun same hsame hjoined name => ?_⟩
      · obtain ⟨same, name, order, hsame, hcollecting⟩ := h.rounds id r (hold id r hr)
        obtain rfl := Option.some.inj (hrun.symm.trans hsame)
        refine ⟨_, name, order, hrun', ?_⟩
        rcases hdropped name order id hcollecting with hkept | hnone
        · rw [hkept, hcollecting]
        · simp [hnone] at hr
      · obtain rfl := Option.some.inj (hrun'.symm.trans hsame)
        have hbefore : ∀ name, (run.worker name).stage = .stopped := by
          cases hstage : run'.stage with
          | settling caller =>
              rcases hsettles caller hstage with hsettling | hstopped
              · exact h.stopped run hrun (by rw [hsettling]; rfl)
              · exact hstopped
          | closing => exact h.stopped run hrun (by rw [hclosing.1 hstage]; rfl)
          | _ => simp [hstage, RunStage.isJoined] at hjoined
        rcases hworkers name with hkept | hstopped
        · rw [hkept, hbefore name]
        · rw [hstopped]
  | closes turn _ _ _ hsame hrun' =>
      obtain ⟨stage, hcaller⟩ := turn.caller
      obtain ⟨run, hrun, hsettling⟩ := sole _ _ hcaller rfl
      rw [hrun, Option.map_some] at hrun'
      refine ⟨fun id r hr => ?_, fun same hsame _ name => ?_⟩
      · rw [hsame.rounds] at hr
        obtain ⟨same, name, order, hbefore, hcollecting⟩ := h.rounds id r hr
        obtain rfl := Option.some.inj (hrun.symm.trans hbefore)
        exact ⟨_, name, order, hrun', (congrArg _ (SchedulerRun.worker_stage ..)).trans hcollecting⟩
      · obtain rfl := Option.some.inj (hrun'.symm.trans hsame)
        rw [SchedulerRun.worker_stage]
        exact h.stopped run hrun (by rw [hsettling]; rfl) name
  | finishes hrun hclosing hnone _ hsame =>
      refine ⟨fun id r hr => ?_, by simp [hnone]⟩
      -- a run that gives the lock back has no worker left that collects
      rw [hsame.rounds] at hr
      obtain ⟨same, name, order, hrun', hcollecting⟩ := h.rounds id r hr
      obtain rfl := Option.some.inj (hrun.symm.trans hrun')
      simp [h.stopped _ hrun (by rw [hclosing]; rfl) name] at hcollecting
  | passes hrun hticking _ hrun' _ hengine =>
      exact h.ticked hrun hrun' hengine (fun name => by rw [SchedulerRun.worker_ticks]) hticking
  | hands hrun hticking _ hoffer hrun' _ hengine => exact h.offered hrun hticking hoffer hrun' hengine
  | drops hrun hticking _ hoffer hrun' _ hengine => exact h.offered hrun hticking hoffer hrun' hengine
  | readies hrun hstarting hrun' _ hsame =>
      refine h.setWorker hrun hrun' (fun id r hr => .inr ⟨⟨r, hsame.rounds ▸ hr⟩, ?_⟩) ?_ <;>
        simp [hstarting]
  | takes hrun hwaiting _ hrun' _ hrounds =>
      refine h.setWorker hrun hrun' (fun id r hr => ?_) (by simp [hwaiting])
      rw [hrounds, Table.get?_insert] at hr
      split at hr
      · next hid => exact .inl ⟨_, by rw [hid]⟩
      · exact .inr ⟨⟨r, hr⟩, by simp [hwaiting]⟩
  | @goesOn _ id r _ hrun _ _ hr hrounds =>
      refine h.same hrun fun k r' hr' => ?_
      rw [hrounds, Table.get?_insert] at hr'
      split at hr'
      · next hk => exact ⟨r, hk ▸ hr⟩
      · exact ⟨r', hr'⟩
  | @collects _ id _ _ _ _ order hrun hcollecting hrun' _ _ _ hrounds =>
      refine h.setWorker hrun hrun' (fun k r hr => .inr ?_) (by simp [hcollecting])
      obtain ⟨hk, hbefore⟩ := erased hrounds hr
      refine ⟨⟨r, hbefore⟩, fun other hother => hk ?_⟩
      rw [hcollecting] at hother
      exact (WorkerStage.collecting.inj hother).2.symm
  | unclaimed _ hrun _ _ _ hrounds => exact h.same hrun fun k r hr => ⟨r, (erased hrounds hr).2⟩
  | delivers hrun hsending hrun' _ hsame =>
      refine h.setWorker hrun hrun' (fun id r hr => .inr ⟨⟨r, hsame.rounds ▸ hr⟩, ?_⟩) ?_ <;>
        simp [hsending]

/-! ## The lock -/

/-- Who wants the lock stands in line for it in the order of the numbers. -/
structure Ranked (s : Scheduler) : Prop where
  ascending : s.lock.Pairwise (· < ·)
  lined : ∀ id, id ∈ s.lock ↔ ∃ asking, s.callers.get? id = some asking

theorem Ranked.call (h : s.Ranked) (queued : s.Queued) {request : ChangeRequest}
    (hcontrol : s'.control = (s.call request).control) : s'.Ranked := by
  have hcallers : s'.callers = s.callers.insert s.nextId { request } :=
    congrArg Control.callers hcontrol
  have hlock : s'.lock = s.lock ++ [s.nextId] := congrArg Control.lock hcontrol
  refine ⟨?_, fun id => ?_⟩
  · rw [hlock, List.pairwise_append]
    refine ⟨h.ascending, List.pairwise_singleton _ _, fun id hid other hother => ?_⟩
    obtain ⟨asking, hasking⟩ := (h.lined id).1 hid
    rw [List.mem_singleton.1 hother]
    exact queued.callers id asking hasking
  · rw [hlock, List.mem_append, List.mem_singleton, h.lined, hcallers, Table.get?_insert]
    split <;> simp_all

theorem Ranked.release (h : s.Ranked) (hcallers : s'.callers = s.callers.erase id)
    (hlock : s'.lock = s.lock.filter (· ≠ id)) : s'.Ranked := by
  refine ⟨?_, fun other => ?_⟩
  · rw [hlock]
    exact h.ascending.filter _
  · rw [hlock, List.mem_filter, h.lined, hcallers, Table.get?_erase]
    split <;> simp_all

theorem Ranked.await (h : s.Ranked) {asking later : Caller} (hcaller : s.callers.get? id = some asking)
    (hcallers : s'.callers = s.callers.insert id later) (hlock : s'.lock = s.lock) : s'.Ranked := by
  refine ⟨hlock ▸ h.ascending, fun other => ?_⟩
  rw [hlock, h.lined, hcallers, Table.get?_insert]
  split
  · next hother => simp [hother, hcaller]
  · rfl

theorem Ranked.move (h : s.Ranked) (queued : s.Queued) (linked : s.Linked)
    (taken : s.move action = some (s', events)) : s'.Ranked := by
  rcases serves_or_proceeds linked taken with serves | proceeds
  · generalize own events = raised at serves
    cases serves with
    | asks _ hcontrol => exact h.call queued hcontrol
    | refuses _ _ hcontrol =>
        exact h.release (congrArg Control.callers hcontrol) (congrArg Control.lock hcontrol)
    | accepts _ _ _ hcontrol =>
        exact h.release (congrArg Control.callers hcontrol) (congrArg Control.lock hcontrol)
    | awaits _ hcaller _ _ _ hcontrol =>
        exact h.await hcaller (congrArg Control.callers hcontrol) (congrArg Control.lock hcontrol)
    | joins _ hcaller _ hcontrol =>
        exact h.await hcaller (congrArg Control.callers hcontrol) (congrArg Control.lock hcontrol)
    | answers _ _ hcontrol =>
        exact h.release (congrArg Control.callers hcontrol) (congrArg Control.lock hcontrol)
    | closes _ _ hcontrol =>
        exact h.release (congrArg Control.callers hcontrol) (congrArg Control.lock hcontrol)
    | drops _ _ hcontrol =>
        exact h.release (congrArg Control.callers hcontrol) (congrArg Control.lock hcontrol)
  · obtain ⟨hcallers, hlock, -⟩ := proceeds.frame
    refine ⟨hlock ▸ h.ascending, ?_⟩
    rw [hlock, hcallers]
    exact h.lined

/-- Nobody who still stands in line has asked before the caller whose turn it is. -/
theorem Ranked.le_of_turn (h : s.Ranked) (queued : s.Queued) {request : ChangeRequest}
    (turn : s.Turn id request action) {other : Nat} {asking : Caller}
    (hother : s.callers.get? other = some asking) : id ≤ other := by
  have hhead : s.lock.head? = some id := by
    cases turn with
    | first hhead => exact hhead
    | again hcaller => exact (queued.front id request _ hcaller).1
  obtain ⟨rest, hrest⟩ := List.head?_eq_some_iff.1 hhead
  have hmem := (h.lined other).2 ⟨asking, hother⟩
  have hascending := h.ascending
  rw [hrest] at hmem hascending
  rcases List.mem_cons.1 hmem with rfl | hmem
  · exact Nat.le_refl _
  · exact Nat.le_of_lt ((List.pairwise_cons.1 hascending).1 other hmem)

/-- Who has come for a change stays until the call returns, unless the call is given up. -/
theorem stands_in_line (linked : s.Linked) (queued : s.Queued)
    (taken : s.move action = some (s', events)) {asking : Caller} (hcaller : s.callers.get? id = some asking)
    (hrequest : asking.request ≠ .shutdown) :
    (∃ later, s'.callers.get? id = some later ∧ later.request = asking.request) ∨
      (∃ result, .returned id result ∈ events) ∨ action = .act (.dropCaller id) := by
  have kept {other : Nat} (hcallers : s'.callers = s.callers.erase other) (hother : id ≠ other) :
      ∃ later, s'.callers.get? id = some later ∧ later.request = asking.request := by
    refine ⟨asking, ?_, rfl⟩
    rw [hcallers, Table.get?_erase, if_neg hother, hcaller]
  have released {other : Nat} {result : Except PlanError Unit} {raised : List SchedulerEvent}
      (hown : own events = raised) (hreturned : .returned other result ∈ raised)
      (hcallers : s'.callers = s.callers.erase other) :
      (∃ later, s'.callers.get? id = some later ∧ later.request = asking.request) ∨
        (∃ result, .returned id result ∈ events) ∨ action = .act (.dropCaller id) := by
    by_cases hother : id = other
    · subst hother
      exact .inr (.inl ⟨result, (mem_own rfl).1 (hown ▸ hreturned)⟩)
    · exact .inl (kept hcallers hother)
  have moved {other : Nat} {request : ChangeRequest} {stage stage' : CallerStage}
      (hbefore : s.callers.get? other = some { request, stage })
      (hcallers : s'.callers = s.callers.insert other { request, stage := stage' }) :
      ∃ later, s'.callers.get? id = some later ∧ later.request = asking.request := by
    rw [hcallers, Table.get?_insert]
    split
    · next hother =>
        rw [hother] at hcaller
        obtain rfl := Option.some.inj (hcaller.symm.trans hbefore)
        exact ⟨_, rfl, rfl⟩
    · exact ⟨asking, hcaller, rfl⟩
  rcases serves_or_proceeds linked taken with serves | proceeds
  · generalize hown : own events = raised at serves
    cases serves with
    | asks _ hcontrol =>
        have hcallers : s'.callers = s.callers.insert s.nextId _ := congrArg Control.callers hcontrol
        refine .inl ⟨asking, ?_, rfl⟩
        rw [hcallers, Table.get?_insert, if_neg (Nat.ne_of_lt (queued.callers id asking hcaller)),
          hcaller]
    | refuses _ _ hcontrol =>
        exact released hown (List.mem_singleton_self _) (congrArg Control.callers hcontrol)
    | accepts _ _ _ hcontrol =>
        exact released hown (List.mem_singleton_self _) (congrArg Control.callers hcontrol)
    | awaits _ hbefore _ _ _ hcontrol =>
        exact .inl (moved hbefore (congrArg Control.callers hcontrol))
    | joins _ hbefore _ hcontrol =>
        exact .inl (moved hbefore (congrArg Control.callers hcontrol))
    | answers _ _ hcontrol =>
        exact released hown (List.mem_singleton_self _) (congrArg Control.callers hcontrol)
    | closes turn _ hcontrol =>
        refine .inl (kept (congrArg Control.callers hcontrol) ?_)
        rintro rfl
        obtain ⟨stage, hsame⟩ := turn.caller
        obtain rfl := Option.some.inj (hcaller.symm.trans hsame)
        exact hrequest rfl
    | @drops other _ _ _ hcontrol =>
        by_cases hother : id = other
        · exact .inr (.inr (by rw [hother]))
        · exact .inl (kept (congrArg Control.callers hcontrol) hother)
  · obtain ⟨hcallers, -⟩ := proceeds.frame
    exact .inl ⟨asking, hcallers ▸ hcaller, rfl⟩

/-! ## The end of a run -/

/-- The run goes on, and this caller has come before it goes for the lock. -/
structure Leads (s : Scheduler) (id : Nat) : Prop where
  going : s.phase = some false
  called : ∃ asking, s.callers.get? id = some asking ∧ asking.request ≠ .shutdown
  ahead : ∀ other asking, s.callers.get? other = some asking → asking.request = .shutdown → id < other

theorem Leads.congr (h : s.Leads id) (hcontrol : s'.control = s.control)
    (hphase : s'.phase = s.phase) : s'.Leads id := by
  have hcallers : s'.callers = s.callers := congrArg Control.callers hcontrol
  refine ⟨hphase.trans h.going, ?_, ?_⟩
  · rw [hcallers]
    exact h.called
  · rw [hcallers]
    exact h.ahead

/-- As long as the caller is there, the run is not over. -/
theorem Leads.move (h : s.Leads id) (linked : s.Linked) (queued : s.Queued) (ranked : s.Ranked)
    (taken : s.move action = some (s', events)) (hreturned : ∀ result, .returned id result ∉ events)
    (hdrop : action ≠ .act (.dropCaller id)) : s'.Leads id := by
  obtain ⟨asking, hasking, hrequest⟩ := h.called
  refine ⟨?_, ?_, fun other later hother hshutdown => ?_⟩
  · cases phases_of_move taken with
    | stays hsame => exact hsame.trans h.going
    | begins _ hbegun => exact hbegun
    | closes turn =>
        -- the run is granted the lock only after the caller
        obtain ⟨stage, hcaller⟩ := turn.caller
        have hlt := h.ahead _ _ hcaller rfl
        have hle := ranked.le_of_turn queued turn hasking
        omega
    | ends _ hclosing => exact absurd (h.going.symm.trans hclosing) (by simp)
  · rcases stands_in_line linked queued taken hasking hrequest with ⟨later, hlater, hsame⟩ |
      ⟨result, hmem⟩ | haction
    · exact ⟨later, hlater, hsame ▸ hrequest⟩
    · exact absurd hmem (hreturned result)
    · exact absurd haction hdrop
  · rcases shutdown_of_move linked taken hother hshutdown with ⟨earlier, hearlier, hbefore⟩ | ⟨-, rfl⟩
    · exact h.ahead other earlier hearlier hbefore
    · exact queued.callers id asking hasking

/-! ## Runs -/

section

variable {settings : SchedulerSettings} {engine : EngineSettings} {board : Board}
  {store : PlanStore} {sinks : List String} {history : History} {last : Scheduler}

theorem tidy_of_run (run : Run move (create settings (.create engine board) store sinks) history last) :
    Tidy settings sinks last :=
  run.invariant (tidy_create engine board store) fun taken h => h.move taken

theorem attended_of_run
    (run : Run move (create settings (.create engine board) store sinks) history last) :
    last.Attended := by
  induction run with
  | nil =>
      refine ⟨?_, ?_⟩ <;> simp [create, say, setStatus, Engine.create, Engine.say]
  | snoc run taken ih => exact ih.drives (tidy_of_run run).sole (drives_of_move taken)

theorem ranked_of_run
    (run : Run move (create settings (.create engine board) store sinks) history last) :
    last.Ranked := by
  induction run with
  | nil => exact ⟨by simp [create, say, setStatus], by simp [create, say, setStatus]⟩
  | snoc run taken ih => exact ih.move (queued_of_run run) (tidy_of_run run).linked taken

end

end Scheduler

end Cadence
