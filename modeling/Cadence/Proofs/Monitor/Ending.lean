import Cadence.Proofs.Monitor.Activating
import Cadence.Proofs.Monitor.Stages
import Cadence.Proofs.Scheduler.StatusLine

/-!
# What is left when a run of the monitor ends

A request to stop reaches the scheduler at once and the adjuster between two
observations.  So the run of the scheduler can be over, or about to say so, while the
adjuster still observes, and what it does then nobody ends: a change that it has
made, or a pause.  Without that, and without an adjuster, nothing is left.
-/

namespace Cadence

def SchedulerEvent.isStopped : SchedulerEvent → Bool
  | stopped => true
  | _ => false

namespace Monitor

open Scheduler (Waits)

variable {m m' : Monitor} {history : History}
  {x : Step Monitor MonitorAction SchedulerEvent}

/-- There is no change of plan any more, and the line of the scheduler says that its run is over. -/
structure Quiet (m : Monitor) : Prop where
  idle : ∀ k, ¬ m.scheduler.InFlight k
  unprepared : m.scheduler.engine.preparations = ∅
  line : m.scheduler.status = "stopped"

/-- The run of the scheduler gives the lock back in this step, and has only to say that it is over. -/
def Closes (x : Step Monitor MonitorAction SchedulerEvent) : Prop :=
  ¬ x.before.scheduler.Closing ∧ x.after.scheduler.Closing

instance : DecidablePred Closes := fun x =>
  inferInstanceAs (Decidable (¬ x.before.scheduler.Closing ∧ x.after.scheduler.Closing))

/-- The run of the scheduler ends in this step. -/
def Stops (x : Step Monitor MonitorAction SchedulerEvent) : Prop := .stopped ∈ x.events

/-- The part of a history that lies behind the point where the scheduler's last run gave the lock
back. -/
def sinceClosed (history : History) : History := history.rtakeWhile (fun x => ¬ Closes x)

/-- The part of a history that lies behind the end of the scheduler's last run. -/
def sinceStopped (history : History) : History :=
  history.rtakeWhile (fun x => !x.events.any (·.isStopped))

/-- A change is accepted, or collection is paused. -/
def Disturbs (x : Step Monitor MonitorAction SchedulerEvent) : Prop :=
  (∃ k, ¬ x.before.scheduler.InFlight k ∧ x.after.scheduler.InFlight k) ∨ Pauses x

theorem any_isStopped {events : List SchedulerEvent} :
    events.any (·.isStopped) = true ↔ .stopped ∈ events := by
  rw [List.any_eq_true]
  constructor
  · rintro ⟨event, hmem, hkind⟩
    cases event with
    | stopped => exact hmem
    | _ => contradiction
  · exact fun hmem => ⟨_, hmem, rfl⟩

theorem sinceStopped_of_stops (h : Stops x) : sinceStopped (history ++ [x]) = [] := by
  simp [sinceStopped, any_isStopped.2 h]

theorem sinceStopped_snoc (h : ¬ Stops x) :
    sinceStopped (history ++ [x]) = sinceStopped history ++ [x] := by
  have hnot : x.events.any (·.isStopped) = false :=
    Bool.eq_false_iff.2 fun hany => h (any_isStopped.1 hany)
  simp [sinceStopped, hnot]

theorem sinceClosed_of_closes (h : Closes x) : sinceClosed (history ++ [x]) = [] := by
  simp [sinceClosed, h]

theorem sinceClosed_snoc (h : ¬ Closes x) :
    sinceClosed (history ++ [x]) = sinceClosed history ++ [x] := by
  simp [sinceClosed, h]

/-! ## Rest -/

section Glides

variable {s s' : Scheduler} {halts : Prop}

/-- What is kept by every move that says nothing is kept by all the moves between two states. -/
theorem Glides.keeps (h : Glides halts s s') (Inv : Scheduler → Prop) (linked : s.Linked)
    (init : Inv s)
    (keep : ∀ {t t' : Scheduler} {action : Move}, t.Linked → t.move action = some (t', []) →
      (action = .act .pause → halts) → Inv t → Inv t') : Inv s' := by
  obtain ⟨moves, run, quiet⟩ := h
  induction run with
  | nil => exact init
  | @snoc _ t t' action events run taken ih =>
      obtain ⟨hsilent, -, hpause⟩ := quiet _ (List.mem_append_right _ (List.mem_singleton_self _))
      obtain rfl : events = [] := hsilent
      have hbefore := ih fun z hz => quiet z (List.mem_append_left _ hz)
      exact keep (Scheduler.linked_of_run linked run) taken hpause hbefore

theorem Glides.inFlight (h : Glides halts s s') (linked : s.Linked) {k : Nat}
    (hflight : s'.InFlight k) : s.InFlight k := by
  refine h.keeps (fun t => t.InFlight k → s.InFlight k) linked id ?_ hflight
  intro t t' action hlinked taken _ hbefore hlater
  exact hbefore (Scheduler.inFlight_of_silent hlinked taken hlater)

theorem Glides.resting (h : Glides halts s s') (calm : ¬ halts) (linked : s.Linked)
    (hrest : s.Resting) : s'.Resting := by
  refine h.keeps Scheduler.Resting linked hrest fun {t t' action} hlinked taken hpause hbefore => ?_
  refine hbefore.move (y := ⟨t, action, t', []⟩) taken ?_
  rintro (⟨k, hnew, hflight⟩ | haction)
  · exact hnew (Scheduler.inFlight_of_silent hlinked taken hflight)
  · exact calm (hpause haction)

theorem Glides.restless (h : Glides halts s s') (linked : s.Linked) (hrest : s.Restless) :
    s'.Restless :=
  h.keeps Scheduler.Restless linked hrest fun {t t' action} hlinked taken _ hbefore =>
    hbefore.move (y := ⟨t, action, t', []⟩) hlinked taken (by simp)

end Glides

theorem status_of_pauses (taken : x.before.step x.action = some (x.after, x.events))
    (h : Pauses x) : x.after.scheduler.status = "paused" := by
  obtain ⟨a, attempt, now, -, hpauses, hafter⟩ := eq_of_pauses taken h
  rw [hafter]
  simp only [make, Attempt.call, hpauses, if_true]
  exact Scheduler.status_say _

theorem inFlight_of_control {s s' : Scheduler} (h : s'.control = s.control) (k : Nat) :
    s'.InFlight k ↔ s.InFlight k := by
  have hchanges : s'.changes = s.changes := congrArg Scheduler.Control.changes h
  rw [Scheduler.InFlight, hchanges]
  rfl

/-- An action of the scheduler is a move of it, after which the monitor only reacts. -/
theorem move_of_scheduler {act : SchedulerAction} (haction : x.action = .scheduler act)
    (taken : x.before.step x.action = some (x.after, x.events)) :
    ∃ s, x.before.scheduler.move (.act act) = some (s, x.events) ∧
      x.after.scheduler.control = s.control ∧ x.after.scheduler.phase = s.phase ∧
      Glides False s x.after.scheduler ∧
      (Scheduler.Disturbs ⟨x.before.scheduler, .act act, s, x.events⟩ ↔ Disturbs x) := by
  rw [haction] at taken
  obtain ⟨s, hallows, hstep, hafter⟩ := scheduler_eq_some taken
  have hcontrol : x.after.scheduler.control = s.control := by
    rw [hafter]
    exact (foldl_react_frame x.events).1
  refine ⟨s, hstep, hcontrol, ?_, ?_, ?_⟩
  · rw [hafter]
    exact phase_foldl_react x.events
  · rw [hafter]
    exact ({ x.before with scheduler := s } : Monitor).glides_foldl_react x.events
  · simp only [Scheduler.Disturbs, Disturbs, inFlight_of_control hcontrol]
    refine or_congr_right ⟨fun hpause => ?_, ?_⟩
    · obtain rfl := Move.act.inj hpause
      simp [allows] at hallows
    · rintro ⟨_, _, _, _, -, hother, -⟩
      simp [haction] at hother

/-- The scheduler of a monitor stays at rest as long as nobody disturbs it. -/
theorem resting_of_step (linked : x.before.scheduler.Linked) (hrest : x.before.scheduler.Resting)
    (taken : x.before.step x.action = some (x.after, x.events)) (calm : ¬ Disturbs x) :
    x.after.scheduler.Resting := by
  by_cases hkind : ∃ act, x.action = .scheduler act
  · obtain ⟨act, haction⟩ := hkind
    obtain ⟨s, hmove, -, -, hglides, hdisturbs⟩ := move_of_scheduler haction taken
    refine hglides.resting id (linked.move hmove) ?_
    exact hrest.move (y := ⟨x.before.scheduler, .act act, s, x.events⟩) hmove (mt hdisturbs.1 calm)
  · obtain ⟨-, hglides⟩ := glides_of_step taken (not_exists.1 hkind)
    exact hglides.resting (fun hpauses => calm (.inr hpauses)) linked hrest

theorem restless_of_step (linked : x.before.scheduler.Linked)
    (taken : x.before.step x.action = some (x.after, x.events)) (going : ¬ Stops x)
    (h : x.before.scheduler.Restless ∨ Disturbs x) : x.after.scheduler.Restless := by
  by_cases hkind : ∃ act, x.action = .scheduler act
  · obtain ⟨act, haction⟩ := hkind
    obtain ⟨s, hmove, -, -, hglides, hdisturbs⟩ := move_of_scheduler haction taken
    refine hglides.restless (linked.move hmove) ?_
    rcases h with hrest | h
    · exact hrest.move (y := ⟨x.before.scheduler, .act act, s, x.events⟩) linked hmove going
    · exact Scheduler.restless_of_disturbs (y := ⟨x.before.scheduler, .act act, s, x.events⟩)
        linked hmove (hdisturbs.2 h)
  · obtain ⟨-, hglides⟩ := glides_of_step taken (not_exists.1 hkind)
    rcases h with hrest | ⟨k, hnew, hflight⟩ | hpauses
    · exact hglides.restless linked hrest
    · exact absurd (hglides.inFlight linked hflight) hnew
    · exact .inl (by simp [status_of_pauses taken hpauses])

theorem resting_of_closes (orderly : x.before.scheduler.Orderly)
    (taken : x.before.step x.action = some (x.after, x.events)) (h : Closes x) :
    x.after.scheduler.Resting := by
  obtain ⟨hopen, hclosing⟩ := h
  obtain ⟨act, haction⟩ := scheduler_of_closing taken hopen hclosing
  obtain ⟨s, hmove, -, hphase, hglides, -⟩ := move_of_scheduler haction taken
  refine hglides.resting id (orderly.linked.move hmove) ?_
  exact orderly.resting hmove (hphase.symm.trans hclosing) hopen

/-- A change is accepted only if somebody waits for that. -/
theorem waits_of_inFlight (linked : x.before.scheduler.Linked)
    (taken : x.before.step x.action = some (x.after, x.events)) {k : Nat}
    (hnew : ¬ x.before.scheduler.InFlight k) (hflight : x.after.scheduler.InFlight k) :
    ∃ caller, Waits x.before.scheduler caller := by
  by_cases hkind : ∃ act, x.action = .scheduler act
  · obtain ⟨act, haction⟩ := hkind
    obtain ⟨s, hmove, hcontrol, -⟩ := move_of_scheduler haction taken
    have hflight := (inFlight_of_control hcontrol k).1 hflight
    rcases Scheduler.serves_or_proceeds linked hmove with serves | proceeds
    · rcases serves.accepted_cases (y := ⟨x.before.scheduler, .act act, s, x.events⟩) with
        ⟨-, hbefore, -⟩ | ⟨caller, state, name, _, _, turn, -⟩
      · exact absurd (hbefore k hflight) hnew
      · obtain ⟨stage, hcaller⟩ := turn.caller
        exact ⟨caller, _, state, name, hcaller, rfl⟩
    · exact absurd (proceeds.inFlight_before hflight) hnew
  · obtain ⟨-, hglides⟩ := glides_of_step taken (not_exists.1 hkind)
    exact absurd (hglides.inFlight linked hflight) hnew

/-! ## Runs -/

section Runs

variable {config : Config} {policy : Policy} {store : PlanStore} {sinks : List String}
  {transform : Option (Batch → Batch)} {now : Nat} {date : Utc}

theorem attends_of_run (hpolicy : config.policy = some policy)
    (run : Run step (create config store sinks transform now date) history m) :
    ∃ a, m.adjuster = some a ∧ Attends m a := by
  induction run with
  | nil =>
      refine ⟨.create policy config.readOnlyTimeout now date, ?_, fun _ => rfl⟩
      rw [create, publish_adjuster, hpolicy]
      rfl
  | snoc _ taken ih =>
      obtain ⟨a, ha, hattends⟩ := ih
      exact hattends.step ha taken

theorem plain_create (hpolicy : config.policy = none) :
    (create config store sinks transform now date).Plain := by
  have hstage : (create config store sinks transform now date).stage = .idle := publish_stage
  refine ⟨?_, publish_attempt, by simp [hstage], fun caller hwaits => ?_, by simp [hstage]⟩
  · rw [create, publish_adjuster, hpolicy]
    rfl
  · rw [create, waits_congr publish_control] at hwaits
    obtain ⟨asking, state, plan, hcaller, -⟩ := hwaits
    simp [Scheduler.create, Scheduler.say, Scheduler.setStatus] at hcaller

theorem plain_of_run (hpolicy : config.policy = none)
    (run : Run step (create config store sinks transform now date) history m) :
    m.Plain ∧ ∃ settings engine moves,
      Lifted (.create settings (.create engine ∅) store sinks) history m moves := by
  induction run with
  | nil => exact ⟨plain_create hpolicy, lifted_create ..⟩
  | @snoc history m m' action events _ taken ih =>
      obtain ⟨plain, settings, engine, moves, lifted⟩ := ih
      have tidy := Scheduler.tidy_of_run lifted.run
      obtain ⟨part, hpart⟩ := moves_of_step (y := ⟨m, action, m', events⟩) taken
      refine ⟨?_, settings, engine, _, lifted.snoc plain.ownsCalls hpart⟩
      exact plain.step tidy.linked tidy.sole (Scheduler.queued_of_run lifted.run)
        (Scheduler.ranked_of_run lifted.run) taken

/-- With an adjuster and without, the monitor waits for its calls, and so a run of it is one of its
scheduler in which nobody gives up a change of plan. -/
theorem scheduler_of_run (run : Run step (create config store sinks transform now date) history m) :
    m.OwnsCalls ∧ m.scheduler.Orderly ∧ m.scheduler.Attended := by
  obtain ⟨owned, settings, engine, moves, lifted⟩ : m.OwnsCalls ∧ ∃ settings engine moves,
      Lifted (.create settings (.create engine ∅) store sinks) history m moves := by
    cases hpolicy : config.policy with
    | none =>
        obtain ⟨plain, lifted⟩ := plain_of_run hpolicy run
        exact ⟨plain.ownsCalls, lifted⟩
    | some policy =>
        obtain ⟨a, settings, engine, moves, -, attuned, lifted, -⟩ := resolved_of_run hpolicy run
        exact ⟨attuned.ownsCalls, settings, engine, moves, lifted⟩
  exact ⟨owned, (Scheduler.accounted_of_run lifted.run lifted.stays).orderly,
    Scheduler.attended_of_run lifted.run⟩

/-- Where there is an adjuster, only what it does while the monitor waits for it disturbs. -/
theorem disturbs_cases (run : Run step (create config store sinks transform now date) history x.before)
    (taken : x.before.step x.action = some (x.after, x.events)) (h : Disturbs x) :
    config.policy ≠ none ∧ x.before.stage = .adjusting ∨
      x.before.isRunning = true ∧ x.before.scheduler.phase = some false := by
  obtain ⟨-, orderly, -⟩ := scheduler_of_run run
  cases hpolicy : config.policy with
  | none =>
      obtain ⟨plain, -⟩ := plain_of_run hpolicy run
      rcases h with ⟨k, hnew, hflight⟩ | ⟨a, _, _, _, ha, -⟩
      · obtain ⟨caller, hwaits⟩ := waits_of_inFlight orderly.linked taken hnew hflight
        have hstage := plain.waits caller hwaits
        exact .inr ⟨by simp [isRunning, hstage], (plain.leads caller hstage).going⟩
      · simp [plain.adjuster] at ha
  | some policy =>
      obtain ⟨a, _, _, _, ha, attuned, -⟩ := resolved_of_run hpolicy run
      obtain ⟨same, hsame, attends⟩ := attends_of_run hpolicy run
      obtain rfl := Option.some.inj (ha.symm.trans hsame)
      refine .inl ⟨by simp, Classical.byContradiction fun hother => ?_⟩
      have hidle := attends hother
      rcases h with ⟨k, hnew, hflight⟩ | ⟨b, b', act, attempt, hb, haction, hstep, -⟩
      · obtain ⟨caller, hwaits⟩ := waits_of_inFlight orderly.linked taken hnew hflight
        obtain ⟨attempt, now, hattempting⟩ := attuned.attempting (by simp [attuned.waits caller hwaits])
        simp [hidle] at hattempting
      · obtain rfl := Option.some.inj (ha.symm.trans hb)
        rw [haction] at taken
        cases acts_of_step taken with
        | adjusts hact => simp [Adjuster.step_of_idle hact hidle] at hstep

/-- If the run of the scheduler has given the lock back or has ended, a step of the history has
done it. -/
def Witnessed (history : History) (m : Monitor) : Prop :=
  (m.scheduler.phase = some false ∨ ∃ x ∈ history, Closes x) ∧
    (m.scheduler.phase ≠ none ∨ ∃ x ∈ history, Stops x)

theorem Witnessed.step (h : Witnessed history x.before)
    (hrun : Continues x.before.scheduler x.after.scheduler x.events) :
    Witnessed (history ++ [x]) x.after := by
  have later {P : Step Monitor MonitorAction SchedulerEvent → Prop} (h : ∃ y ∈ history, P y) :
      ∃ y ∈ history ++ [x], P y := by
    obtain ⟨y, hy, hp⟩ := h
    exact ⟨y, List.mem_append_left _ hy, hp⟩
  have now {P : Step Monitor MonitorAction SchedulerEvent → Prop} (h : P x) :
      ∃ y ∈ history ++ [x], P y :=
    ⟨x, List.mem_append_right _ (List.mem_singleton_self _), h⟩
  cases hrun with
  | stays hsame =>
      rw [Witnessed, hsame]
      exact h.imp (Or.imp_right later) (Or.imp_right later)
  | closes hbefore hclosing =>
      have hopen : ¬ x.before.scheduler.Closing := fun hsame =>
        absurd (hbefore.symm.trans hsame) (by simp)
      have hgoing : x.after.scheduler.phase ≠ none := fun hnone =>
        absurd (hnone.symm.trans hclosing) (by simp)
      exact ⟨.inr (now ⟨hopen, hclosing⟩), .inl hgoing⟩
  | ends hstopped hclosing =>
      have hclosed : ∃ y ∈ history, Closes y := h.1.resolve_left fun hbefore =>
        absurd (hbefore.symm.trans hclosing) (by simp)
      exact ⟨.inr (later hclosed), .inr (now hstopped)⟩

/-- The run of the scheduler is over when the monitor's is.  It has then given the lock back in one
step and ended in another. -/
theorem over_of_run (run : Run step (create config store sinks transform now date) history m) :
    (m.isRunning = false → m.scheduler.phase = none) ∧ (m.stage = .idle ∨ Witnessed history m) := by
  induction run with
  | nil => exact ⟨fun _ => by rw [Scheduler.phase, create, publish_run]; rfl, .inl publish_stage⟩
  | @snoc history m m' action events run taken ih =>
      obtain ⟨hover, hbegun⟩ := ih
      have goesOn (h : Witnessed history m) (hrun : Continues m.scheduler m'.scheduler events) :
          Witnessed (history ++ [⟨m, action, m', events⟩]) m' :=
        h.step (x := ⟨m, action, m', events⟩) hrun
      cases passes_of_step taken with
      | begins _ hrunning hphase =>
          exact ⟨fun hidle => by simp [hidle] at hrunning, .inr (by simp [Witnessed, hphase])⟩
      | stays hstage _ hrun =>
          refine ⟨fun hidle => ?_, hbegun.imp hstage.trans fun h => goesOn h hrun⟩
          have hnone := hover (by simpa [isRunning, hstage] using hidle)
          cases hrun with
          | stays hsame => exact hsame.trans hnone
          | closes hbefore => exact absurd (hnone.symm.trans hbefore) (by simp)
          | ends _ hclosing => exact absurd (hnone.symm.trans hclosing) (by simp)
      | answered hown _ hanswered hrun =>
          refine ⟨fun hidle => by simp [hanswered.isRunning] at hidle, .inr (goesOn ?_ hrun)⟩
          exact hbegun.resolve_left (by simp [hown])
      | leaves hrunning hanswered hphase =>
          refine ⟨fun hidle => by simp [hanswered.isRunning] at hidle, .inr (goesOn ?_ (.stays hphase))⟩
          exact hbegun.resolve_left fun hidle => by simp [isRunning, hidle] at hrunning
      | finishes hclosing _ hnone hnone' =>
          refine ⟨fun _ => hnone, .inr (goesOn ?_ (.stays (hnone.trans hnone'.symm)))⟩
          exact hbegun.resolve_left (by simp [hclosing])

/-- The scheduler has been at rest since its run gave the lock back, unless it has been disturbed. -/
theorem resting_of_run (run : Run step (create config store sinks transform now date) history m)
    (hclosed : ∃ x ∈ history, Closes x) (calm : ∀ x ∈ sinceClosed history, ¬ Disturbs x) :
    m.scheduler.Resting := by
  induction run with
  | nil => simp at hclosed
  | @snoc history m m' action events run taken ih =>
      obtain ⟨-, orderly, -⟩ := scheduler_of_run run
      by_cases hcloses : Closes ⟨m, action, m', events⟩
      · exact resting_of_closes orderly taken hcloses
      · obtain ⟨x, hx, hbefore⟩ := hclosed
        have hx : x ∈ history := by
          rcases List.mem_append.1 hx with hx | hx
          · exact hx
          · exact absurd (List.mem_singleton.1 hx ▸ hbefore) hcloses
        rw [sinceClosed_snoc hcloses, List.forall_mem_append, List.forall_mem_singleton] at calm
        exact resting_of_step (x := ⟨m, action, m', events⟩) orderly.linked
          (ih ⟨x, hx, hbefore⟩ calm.1) taken calm.2

/-- Once it has been disturbed after the end of its run, the scheduler shows it. -/
theorem restless_of_run (run : Run step (create config store sinks transform now date) history m)
    (hx : x ∈ sinceStopped history) (h : Disturbs x) : m.scheduler.Restless := by
  induction run with
  | nil => simp [sinceStopped] at hx
  | @snoc history m m' action events run taken ih =>
      obtain ⟨-, orderly, -⟩ := scheduler_of_run run
      by_cases hstops : Stops ⟨m, action, m', events⟩
      · simp [sinceStopped_of_stops hstops] at hx
      · refine restless_of_step (x := ⟨m, action, m', events⟩) orderly.linked taken hstops ?_
        rw [sinceStopped_snoc hstops, List.mem_append, List.mem_singleton] at hx
        rcases hx with hx | rfl
        · exact .inl (ih hx)
        · exact .inr h

theorem adjusting_of_disturbs (run : Run step (create config store sinks transform now date) history m)
    (hover : m.scheduler.phase ≠ some false) (hx : x ∈ sinceClosed history) (h : Disturbs x) :
    config.policy ≠ none ∧ x.before.stage = .adjusting := by
  induction run with
  | nil => simp [sinceClosed] at hx
  | @snoc history m m' action events run taken ih =>
      by_cases hcloses : Closes ⟨m, action, m', events⟩
      · simp [sinceClosed_of_closes hcloses] at hx
      · have hbefore := over_before (passes_of_step taken) hover hcloses
        rw [sinceClosed_snoc hcloses, List.mem_append, List.mem_singleton] at hx
        rcases hx with hx | rfl
        · exact ih hbefore hx
        · exact (disturbs_cases run taken h).resolve_right fun hgoing => hbefore hgoing.2

/-- What lies behind the end of a run lies behind the point where it gave the lock back. -/
theorem sinceStopped_suffix (run : Run step (create config store sinks transform now date) history m)
    (hover : m.scheduler.phase = none) : sinceStopped history <:+ sinceClosed history := by
  induction run with
  | nil => exact List.suffix_rfl
  | @snoc history m m' action events run taken ih =>
      by_cases hstops : Stops ⟨m, action, m', events⟩
      · rw [sinceStopped_of_stops hstops]
        exact List.nil_suffix
      · have hcloses : ¬ Closes ⟨m, action, m', events⟩ := fun hcloses =>
          absurd (hover.symm.trans hcloses.2) (by simp)
        obtain ⟨part, hpart⟩ := ih (none_before (passes_of_step taken) hstops hover)
        rw [sinceStopped_snoc hstops, sinceClosed_snoc hcloses, ← hpart, List.append_assoc]
        exact List.suffix_append ..

/-- Once its run has ended, a monitor that is not run again only gets calmer. -/
theorem calm_after_end (run : Run step (create config store sinks transform now date) history m)
    (hidle : m.isRunning = false) {later : History} (rest : Run step m later m')
    (unstarted : ∀ x ∈ later, x.action ≠ .run) :
    m'.isRunning = false ∧ (∀ k, m'.scheduler.InFlight k → m.scheduler.InFlight k) ∧
      (m.scheduler.Resting → m'.scheduler.Resting) := by
  induction rest with
  | nil => exact ⟨hidle, fun _ => id, id⟩
  | @snoc later n n' action events rest taken ih =>
      obtain ⟨hbefore, hflight, hrest⟩ := ih fun x hx => unstarted x (List.mem_append_left _ hx)
      have hall := run.append rest
      obtain ⟨-, orderly, -⟩ := scheduler_of_run hall
      have hcalm : ¬ Disturbs ⟨n, action, n', events⟩ := by
        intro h
        rcases disturbs_cases hall taken h with ⟨-, hadjusting⟩ | ⟨hrunning, -⟩
        · have hadjusting : n.stage = .adjusting := hadjusting
          simp [isRunning, hadjusting] at hbefore
        · have hrunning : n.isRunning = true := hrunning
          simp [hbefore] at hrunning
      refine ⟨?_, fun k hnext => hflight k ?_, fun hcalmed => ?_⟩
      · cases passes_of_step taken with
        | begins => exact absurd rfl (unstarted _ (List.mem_append_right _ (List.mem_singleton_self _)))
        | stays hstage => simpa [isRunning, hstage] using hbefore
        | answered hown => simp [isRunning, hown] at hbefore
        | leaves hrunning => simp [hbefore] at hrunning
        | finishes hclosing => simp [isRunning, hclosing] at hbefore
      · exact Classical.byContradiction fun hnew => hcalm (.inl ⟨k, hnew, hnext⟩)
      · exact resting_of_step (x := ⟨n, action, n', events⟩) orderly.linked (hrest hcalmed) taken
          hcalm

theorem quiet_iff_resting (linked : m.scheduler.Linked) (hover : m.scheduler.phase = none) :
    m.Quiet ↔ m.scheduler.Resting := by
  refine ⟨fun h => ⟨h.idle, .inl h.line⟩, fun h => ⟨h.idle, Table.ext_get? fun id => ?_, ?_⟩⟩
  · cases hp : m.scheduler.engine.preparations.get? id with
    | none => rfl
    | some p =>
        obtain ⟨k, c, hc, happlying⟩ := linked.owned id p hp
        exact absurd (Scheduler.inFlight_of_applying hc happlying) (h.idle k)
  · exact h.line.resolve_right fun hclosing => absurd (hover.symm.trans hclosing) (by simp)

theorem Quiet.not_restless (h : m.Quiet) : ¬ m.scheduler.Restless := by
  rintro (hline | ⟨k, c, hc, hspawned⟩)
  · exact hline h.line
  · exact h.idle k ⟨c, hc, by simp [hspawned]⟩

/-- When the run of a monitor has ended, so has that of its scheduler: nobody works and nothing is
collected any more.  A change of plan or another line is left only where the adjuster, for which
the monitor still waited, has had a change accepted or has paused since the scheduler's run gave the
lock back, and surely where it has done so after that run said that it was over.  From then on it
only gets calmer. -/
theorem quiet_unless_disturbed (config : Config) (store : PlanStore) (sinks : List String)
    (transform : Option (Batch → Batch)) (now : Nat) (date : Utc)
    (run : Run step (create config store sinks transform now date) history m)
    (ended : m.result?.isSome = true) :
    (m.scheduler.run = none ∧ m.scheduler.engine.rounds = ∅) ∧
      ((∃ x ∈ history, Closes x) ∧ (∃ x ∈ history, Stops x) ∧
        sinceStopped history <:+ sinceClosed history) ∧
      (∀ k k', m.scheduler.InFlight k → m.scheduler.InFlight k' → k = k') ∧
      ((∀ x ∈ sinceClosed history, ¬ Disturbs x) → m.Quiet) ∧
      (m.Quiet → ∀ x ∈ sinceStopped history, ¬ Disturbs x) ∧
      (∀ x ∈ sinceClosed history, Disturbs x → x.before.stage = .adjusting) ∧
      (config.policy = none → m.Quiet) ∧
      ∀ {later : History} {m' : Monitor}, Run step m later m' → (∀ x ∈ later, x.action ≠ .run) →
        m'.scheduler.run = none ∧ m'.scheduler.engine.rounds = ∅ ∧
          (∀ k, m'.scheduler.InFlight k → m.scheduler.InFlight k) ∧ (m.Quiet → m'.Quiet) := by
  obtain ⟨result, hended⟩ : ∃ result, m.stage = .ended result := by
    unfold result? at ended
    split at ended
    · exact ⟨_, ‹_›⟩
    · contradiction
  have hidle : m.isRunning = false := by simp [isRunning, hended]
  obtain ⟨-, orderly, attended⟩ := scheduler_of_run run
  obtain ⟨hover, hbegun⟩ := over_of_run run
  have hphase := hover hidle
  have hnone : m.scheduler.run = none := Option.map_eq_none_iff.1 hphase
  obtain ⟨hclosed, hstopped⟩ := hbegun.resolve_left (by simp [hended])
  have hclosed : ∃ x ∈ history, Closes x := hclosed.resolve_left (by simp [hphase])
  have hopen : m.scheduler.phase ≠ some false := by simp [hphase]
  have hquiet (calm : ∀ x ∈ sinceClosed history, ¬ Disturbs x) : m.Quiet :=
    (quiet_iff_resting orderly.linked hphase).2 (resting_of_run run hclosed calm)
  refine ⟨⟨hnone, attended.eq_empty hnone⟩,
    ⟨hclosed, hstopped.resolve_left (fun h => h hphase), sinceStopped_suffix run hphase⟩,
    orderly.single, hquiet, fun h x hx hdisturbs => h.not_restless (restless_of_run run hx hdisturbs),
    fun x hx h => (adjusting_of_disturbs run hopen hx h).2, fun hpolicy => ?_, ?_⟩
  · exact hquiet fun x hx h => (adjusting_of_disturbs run hopen hx h).1 hpolicy
  · intro later m' rest unstarted
    obtain ⟨hidle', hflight, hrest⟩ := calm_after_end run hidle rest unstarted
    obtain ⟨-, orderly', attended'⟩ := scheduler_of_run (run.append rest)
    have hphase' := (over_of_run (run.append rest)).1 hidle'
    have hnone' : m'.scheduler.run = none := Option.map_eq_none_iff.1 hphase'
    refine ⟨hnone', attended'.eq_empty hnone', hflight, ?_⟩
    rw [quiet_iff_resting orderly.linked hphase, quiet_iff_resting orderly'.linked hphase']
    exact hrest

end Runs

def activatedOnce : Monitor :=
  create { monitorId := "m", plan := "p" } Scheduler.oneDomain [] none 0 .epoch

/-- The plan is still being prepared when the monitor is asked to stop. -/
def stoppedRun : History × Monitor :=
  Run.follow step activatedOnce [.run, .scheduler (.startWorker .primary),
    .scheduler (.startWorker .secondary), .scheduler (.grant 0), .scheduler (.beginChange 1), .stop,
    .leave, .scheduler .stopTicking, .scheduler (.stopWorker .primary),
    .scheduler (.stopWorker .secondary), .scheduler .join, .scheduler (.grant 2),
    .scheduler (.engine (.noticeCancel 0)), .scheduler (.reportChange 1), .scheduler (.endChange 1),
    .scheduler (.resume 2), .scheduler .finishRun, .finish]

theorem quiet_unless_disturbed_activated_once :
    stoppedRun.2.result?.isSome = true ∧ stoppedRun.2.Quiet ∧
      ∀ {later : History} {m : Monitor}, Run step stoppedRun.2 later m →
        (∀ x ∈ later, x.action ≠ .run) → m.Quiet := by
  have run : Run step activatedOnce stoppedRun.1 stoppedRun.2 := Run.of_follow ..
  have ended : stoppedRun.2.result?.isSome = true := by decide +kernel
  obtain ⟨-, -, -, -, -, -, hquiet, hlater⟩ := quiet_unless_disturbed _ _ _ _ _ _ run ended
  refine ⟨ended, hquiet rfl, fun rest unstarted => ?_⟩
  obtain ⟨-, -, -, hkept⟩ := hlater rest unstarted
  exact hkept (hquiet rfl)

/-- The run of the scheduler is over before the adjuster has an answer, and then the change to an
active instance is made all the same. -/
def observingRun : History × Monitor :=
  Run.follow step activeOnly [.run, .scheduler (.startWorker .primary),
    .scheduler (.startWorker .secondary), .stop, .scheduler .stopTicking,
    .scheduler (.stopWorker .primary), .scheduler (.stopWorker .secondary), .scheduler .join,
    .scheduler (.grant 0), .scheduler .finishRun, .adjuster (.standby false),
    .adjuster (.readOnly .writable),
    .adjuster (.take 0 .epoch), .scheduler (.grant 1), .settle .epoch, .leave,
    .scheduler (.beginChange 2), .finish]

/-- The monitor's run has ended, and a plan is being prepared. -/
theorem preparing_after_end :
    Run step activeOnly observingRun.1 observingRun.2 ∧ observingRun.2.result?.isSome = true ∧
      observingRun.2.scheduler.InFlight 2 ∧
      observingRun.2.scheduler.engine.preparations.contains 0 = true ∧
      observingRun.2.scheduler.status = "changing plan to p (active)" := by
  have hopen : ∃ e ∈ observingRun.2.scheduler.changes.toList, e.1 = 2 ∧ e.2.stage ≠ .ended := by
    decide +kernel
  refine ⟨Run.of_follow .., by decide +kernel, ?_, by decide +kernel, by decide +kernel⟩
  obtain ⟨⟨k, c⟩, hmem, rfl, hopen⟩ := hopen
  exact ⟨c, Table.get?_eq_some_iff.2 hmem, hopen⟩

end Monitor

end Cadence
