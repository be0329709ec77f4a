import Cadence.Proofs.Monitor.Moves
import Cadence.Proofs.Scheduler.Closing

/-!
# The stages of a monitor's run

Only a call that returns, or the end of what the monitor waits for, gets a run of
the monitor any further.  An adjuster observes only while the monitor waits for
it.  Without one the monitor makes a single call, and makes it before the run of
its scheduler can end.
-/

namespace Cadence.Monitor

open Scheduler (Waits moved)

variable {m m' : Monitor} {a : Adjuster} {action : MonitorAction} {events : List SchedulerEvent}

/-- The monitor runs, and waits neither for a call of its own nor for its adjuster. -/
def Answered (m : Monitor) : Prop := m.stage = .running ∨ ∃ result, m.stage = .closing result

theorem Answered.not_adjusting (h : m.Answered) : m.stage ≠ .adjusting := by
  rcases h with hrunning | ⟨_, hclosing⟩ <;> simp [*]

theorem Answered.not_activating (h : m.Answered) (own : Nat) : m.stage ≠ .activating own := by
  rcases h with hrunning | ⟨_, hclosing⟩ <;> simp [*]

theorem Answered.isRunning (h : m.Answered) : m.isRunning = true := by
  rcases h with hrunning | ⟨_, hclosing⟩ <;> simp [Monitor.isRunning, *]

theorem stage_returned (caller : Nat) (result : Except PlanError Unit) :
    (m.returned caller result).stage = m.stage ∧ m.stage ≠ .activating caller ∨
      m.stage = .activating caller ∧ (m.returned caller result).Answered := by
  have hanswered : ∀ answered : Monitor,
      answered = (if m.attempt = some (.pending caller) then
        { m with attempt := some (.answered result.isOk) } else m) →
      answered.stage = m.stage := by
    rintro _ rfl
    split <;> rfl
  unfold returned
  extract_lets answered
  have hstage := hanswered answered rfl
  rw [← hstage]
  split
  · next own hown =>
      split
      · next hcaller =>
          right
          rw [hcaller] at hown
          refine ⟨hown, ?_⟩
          split
          · exact .inl rfl
          · exact .inr ⟨_, rfl⟩
      · next hcaller =>
          refine .inl ⟨rfl, fun hsame => hcaller ?_⟩
          rw [hown] at hsame
          exact MonitorStage.activating.inj hsame
  · next hother => exact .inl ⟨rfl, hother caller⟩

/-- What events mean for the stage: one of them may be the answer to the monitor's own call. -/
inductive Hears (m m' : Monitor) (events : List SchedulerEvent) : Prop
  | nothing : m'.stage = m.stage →
      (∀ own result, m.stage = .activating own → .returned own result ∉ events) → Hears m m' events
  | answer {own : Nat} {result : Except PlanError Unit} : m.stage = .activating own →
      .returned own result ∈ events → m'.Answered → Hears m m' events

theorem Hears.cons {event : SchedulerEvent} (h : Hears m m' events)
    (hevent : ∀ own result, m.stage = .activating own → event ≠ .returned own result) :
    Hears m m' (event :: events) := by
  cases h with
  | nothing hstage hnone =>
      refine .nothing hstage fun own result hown hmem => ?_
      rcases List.mem_cons.1 hmem with hfirst | hmem
      · exact hevent own result hown hfirst.symm
      · exact hnone own result hown hmem
  | answer hown hmem hanswered => exact .answer hown (List.mem_cons_of_mem _ hmem) hanswered

theorem Hears.congr {n : Monitor} (h : Hears n m' events) (hstage : n.stage = m.stage) :
    Hears m m' events := by
  cases h with
  | nothing hsame hnone => exact .nothing (hsame.trans hstage) (hstage ▸ hnone)
  | answer hown hmem hanswered => exact .answer (hstage ▸ hown) hmem hanswered

theorem hears_foldl_react (events : List SchedulerEvent) : Hears m (events.foldl react m) events := by
  induction events generalizing m with
  | nil => exact .nothing rfl (by simp)
  | cons event rest ih =>
      rw [List.foldl_cons]
      cases event with
      | returned caller result =>
          rcases m.stage_returned caller result with ⟨hstage, hother⟩ | ⟨hown, hanswered⟩
          · refine ((ih (m := m.returned caller result)).congr hstage).cons ?_
            rintro own result' hown ⟨⟩
            exact hother hown
          · refine .answer hown List.mem_cons_self ?_
            cases ih (m := m.returned caller result) with
            | nothing hsame => exact hanswered.imp hsame.trans fun ⟨_, h⟩ => ⟨_, hsame.trans h⟩
            | answer hactivating => exact absurd hactivating (hanswered.not_activating _)
      | _ => exact ih.cons (by simp)

theorem stage_stopScheduler : m.stopScheduler.stage = m.stage := by
  unfold stopScheduler
  split <;> rfl

theorem phase_stopScheduler : m.stopScheduler.scheduler.phase = m.scheduler.phase := by
  unfold stopScheduler
  split
  · next s raised h =>
      obtain ⟨run, hrun, ⟨⟩⟩ := Scheduler.requestStop_eq_some h
      simp [Scheduler.phase, hrun]
  · rfl

theorem phase_foldl_react (events : List SchedulerEvent) :
    (events.foldl react m).scheduler.phase = m.scheduler.phase := by
  induction events generalizing m with
  | nil => rfl
  | cons event rest ih =>
      rw [List.foldl_cons, ih]
      cases event with
      | returned caller result =>
          change (m.returned caller result).scheduler.phase = _
          have hanswered : ∀ answered : Monitor,
              answered = (if m.attempt = some (.pending caller) then
                { m with attempt := some (.answered result.isOk) } else m) →
              answered.scheduler = m.scheduler := by
            rintro _ rfl
            split <;> rfl
          unfold returned
          extract_lets answered
          rw [← hanswered answered rfl]
          split
          · split
            · split
              · rfl
              · exact answered.phase_stopScheduler
            · rfl
          · rfl
      | _ => rfl

theorem adjust_frame {act : AdjusterAction} (h : m.adjust act = some (m', events)) :
    m'.stage = m.stage ∧ m'.scheduler.run = m.scheduler.run := by
  obtain ⟨a, ha, h⟩ := Option.bind_eq_some_iff.1 h
  obtain ⟨⟨a', attempt⟩, -, hnext⟩ := Option.map_eq_some_iff.1 h
  obtain ⟨rfl, rfl⟩ := Prod.mk.inj hnext
  cases attempt with
  | none => exact ⟨rfl, rfl⟩
  | some x =>
      simp only [make, Attempt.call]
      split <;> exact ⟨rfl, rfl⟩

/-- How the run of the scheduler goes on in a step. -/
inductive Continues (s s' : Scheduler) (events : List SchedulerEvent) : Prop
  | stays : s'.phase = s.phase → Continues s s' events
  | closes : s.phase = some false → s'.Closing → Continues s s' events
  | ends : .stopped ∈ events → s.Closing → s'.phase = none → Continues s s' events

/-- How the stage goes on in a step, and the run of the scheduler with it. -/
inductive Passes (m m' : Monitor) (events : List SchedulerEvent) : MonitorAction → Prop
  | begins : m.isRunning = false → m'.isRunning = true → m'.scheduler.phase = some false →
      Passes m m' events .run
  | stays {action : MonitorAction} : m'.stage = m.stage →
      (∀ own result, m.stage = .activating own → .returned own result ∉ events) →
      Continues m.scheduler m'.scheduler events → Passes m m' events action
  | answered {action : MonitorAction} {own : Nat} {result : Except PlanError Unit} :
      m.stage = .activating own → .returned own result ∈ events → m'.Answered →
      Continues m.scheduler m'.scheduler events → Passes m m' events action
  | leaves : m.isRunning = true → m'.Answered → m'.scheduler.phase = m.scheduler.phase →
      Passes m m' events .leave
  | finishes {result : Except PlanError Unit} : m.stage = .closing result →
      m'.stage = .ended result → m'.scheduler.phase = none → m.scheduler.phase = none →
      Passes m m' events .finish

theorem continues_of_move {s s' : Scheduler} {act : SchedulerAction}
    (taken : s.move (.act act) = some (s', events)) (hstart : act ≠ .startRun) :
    Continues s s' events := by
  cases Scheduler.phases_of_move taken with
  | stays hsame => exact .stays hsame
  | begins => contradiction
  | closes _ _ _ hphase =>
      cases hbefore : s.phase with
      | none => exact .stays (by rw [hphase, hbefore, Option.map_none])
      | some closing =>
          rw [hbefore, Option.map_some] at hphase
          cases closing with
          | true => exact .stays (hphase.trans hbefore.symm)
          | false => exact .closes hbefore hphase
  | ends hstopped hclosing hnone => exact .ends hstopped hclosing hnone

theorem Continues.congr {s s' s'' : Scheduler} (h : Continues s s' events)
    (hphase : s''.phase = s'.phase) : Continues s s'' events := by
  cases h with
  | stays hsame => exact .stays (hphase.trans hsame)
  | closes hbefore hclosing => exact .closes hbefore (hphase.trans hclosing)
  | ends hstopped hclosing hnone => exact .ends hstopped hclosing (hphase.trans hnone)

theorem passes_of_works {act : SchedulerAction} {s : Scheduler} (hallows : m.allows act = true)
    (taken : m.scheduler.step act = some (s, events)) :
    Passes m (events.foldl react { m with scheduler := s }) events (.scheduler act) := by
  have hsame := ({ m with scheduler := s } : Monitor).phase_foldl_react events
  have hears := ({ m with scheduler := s } : Monitor).hears_foldl_react events
  generalize events.foldl react { m with scheduler := s } = m' at *
  have hmove : m.scheduler.move (.act act) = some (s, events) := taken
  have hstart : act ≠ .startRun := by
    rintro rfl
    simp [allows] at hallows
  have hrun : Continues m.scheduler m'.scheduler events :=
    (continues_of_move hmove hstart).congr hsame
  cases hears with
  | answer hown hreturned hanswered => exact .answered hown hreturned hanswered hrun
  | nothing hstage hnone => exact .stays hstage hnone hrun

theorem passes_of_step (taken : m.step action = some (m', events)) : Passes m m' events action := by
  have adjusted {n : Monitor} {act : AdjusterAction} (hstage : n.stage = m.stage)
      (hrun : n.scheduler.run = m.scheduler.run) (h : n.adjust act = some (m', events)) :
      Passes m m' events action := by
    obtain ⟨rfl, -⟩ := adjust_eq_some h
    obtain ⟨hstage', hrun'⟩ := adjust_frame h
    refine .stays (hstage'.trans hstage) (by simp) (.stays ?_)
    rw [Scheduler.phase, hrun', hrun, Scheduler.phase]
  cases acts_of_step taken with
  | works hallows hstep hnext => exact hnext ▸ passes_of_works hallows hstep
  | adjusts _ hadjust => exact adjusted rfl rfl hadjust
  | activates hidle _ _ _ hnext =>
      subst hnext
      exact .begins hidle rfl rfl
  | observes hidle _ _ _ _ hnext =>
      subst hnext
      exact .begins hidle rfl rfl
  | stops _ hevents hnext =>
      subst hnext
      exact .stays m.stage_stopScheduler (by simp [hevents]) (.stays m.phase_stopScheduler)
  | settles _ hadjust => exact adjusted (n := { m with attempt := none }) rfl rfl hadjust
  | leaves hrunning _ hnext =>
      subst hnext
      exact .leaves (by simp [isRunning, hrunning]) (.inr ⟨_, rfl⟩) m.phase_stopScheduler
  | @dismisses n hadjusting hadjust hnext =>
      subst hnext
      obtain ⟨-, hrun⟩ := adjust_frame hadjust
      refine .leaves (by simp [isRunning, hadjusting]) (.inr ⟨_, rfl⟩) ?_
      exact n.phase_stopScheduler.trans (by rw [Scheduler.phase, hrun, Scheduler.phase])
  | finishes hclosing hover _ hnext =>
      subst hnext
      have hnone : m.scheduler.phase = none := by rw [Scheduler.phase, hover, Option.map_none]
      exact .finishes hclosing rfl hnone hnone

/-- It is an action of the scheduler by which its run gives the lock back. -/
theorem scheduler_of_closing (taken : m.step action = some (m', events))
    (hopen : ¬ m.scheduler.Closing) (hclosing : m'.scheduler.Closing) :
    ∃ act, action = .scheduler act := by
  have same (hphase : m'.scheduler.phase = m.scheduler.phase) : ∃ act, action = .scheduler act :=
    absurd (hphase.symm.trans hclosing) hopen
  have begun (hphase : m'.scheduler.phase = some false) : ∃ act, action = .scheduler act :=
    absurd (hphase.symm.trans hclosing) (by simp)
  have adjusted {n n' : Monitor} {act : AdjusterAction} {raised : List SchedulerEvent}
      (hrun : n.scheduler.run = m.scheduler.run) (h : n.adjust act = some (n', raised)) :
      n'.scheduler.phase = m.scheduler.phase := by
    rw [Scheduler.phase, (adjust_frame h).2, hrun, Scheduler.phase]
  cases acts_of_step taken with
  | works => exact ⟨_, rfl⟩
  | adjusts _ hadjust => exact same (adjusted rfl hadjust)
  | activates _ _ _ _ hnext => exact begun (hnext ▸ rfl)
  | observes _ _ _ _ _ hnext => exact begun (hnext ▸ rfl)
  | stops _ _ hnext => exact same (hnext ▸ m.phase_stopScheduler)
  | settles _ hadjust => exact same (adjusted (n := { m with attempt := none }) rfl hadjust)
  | leaves _ _ hnext => exact same (hnext ▸ m.phase_stopScheduler)
  | @dismisses n _ hadjust hnext =>
      exact same (hnext ▸ n.phase_stopScheduler.trans (adjusted rfl hadjust))
  | finishes _ _ _ hnext => exact same (hnext ▸ rfl)

/-- A run that has given the lock back has done so in this step or before. -/
theorem over_before (h : Passes m m' events action) (hover : m'.scheduler.phase ≠ some false)
    (hopen : ¬ (¬ m.scheduler.Closing ∧ m'.scheduler.Closing)) :
    m.scheduler.phase ≠ some false := by
  have same (hrun : Continues m.scheduler m'.scheduler events) :
      m.scheduler.phase ≠ some false := by
    cases hrun with
    | stays hsame => exact hsame ▸ hover
    | closes hbefore hclosing =>
        refine absurd ⟨fun hsame => ?_, hclosing⟩ hopen
        exact absurd (hbefore.symm.trans hsame) (by simp)
    | ends _ hclosing => exact fun hbefore => absurd (hbefore.symm.trans hclosing) (by simp)
  cases h with
  | begins _ _ hphase => exact absurd hphase hover
  | stays _ _ hrun => exact same hrun
  | answered _ _ _ hrun => exact same hrun
  | leaves _ _ hphase => exact hphase ▸ hover
  | finishes _ _ _ hnone => simp [hnone]

/-- Before a run that is over there is none, as long as none ends. -/
theorem none_before (h : Passes m m' events action) (going : .stopped ∉ events)
    (hnone : m'.scheduler.phase = none) : m.scheduler.phase = none := by
  have same (hrun : Continues m.scheduler m'.scheduler events) : m.scheduler.phase = none := by
    cases hrun with
    | stays hsame => exact hsame.symm.trans hnone
    | closes _ hclosing => exact absurd (hnone.symm.trans hclosing) (by simp)
    | ends hstopped => exact absurd hstopped going
  cases h with
  | begins _ _ hphase => exact absurd (hnone.symm.trans hphase) (by simp)
  | stays _ _ hrun => exact same hrun
  | answered _ _ _ hrun => exact same hrun
  | leaves _ _ hphase => exact hphase.symm.trans hnone
  | finishes _ _ _ hbefore => exact hbefore

/-! ## With an adjuster -/

/-- The adjuster is idle unless the monitor waits for it. -/
def Attends (m : Monitor) (a : Adjuster) : Prop := m.stage ≠ .adjusting → a.stage = .idle

theorem Attends.congr {n : Monitor} (h : Attends n a)
    (hstage : m.stage ≠ .adjusting → n.stage ≠ .adjusting) : Attends m a :=
  fun hother => h (hstage hother)

theorem Attends.step (h : Attends m a) (ha : m.adjuster = some a)
    (taken : m.step action = some (m', events)) : ∃ a', m'.adjuster = some a' ∧ Attends m' a' := by
  have adjusted {n : Monitor} {act : AdjusterAction} (hn : n.adjuster = some a)
      (hstage : n.stage = m.stage) (hidle : a.stage = .idle → a.step act = none)
      (hadjust : n.adjust act = some (m', events)) : ∃ a', m'.adjuster = some a' ∧ Attends m' a' := by
    obtain ⟨-, b, a', attempt, hb, hstep, ha', -⟩ := adjust_eq_some hadjust
    obtain rfl := Option.some.inj (hn.symm.trans hb)
    refine ⟨a', ha', fun hother => ?_⟩
    rw [(adjust_frame hadjust).1, hstage] at hother
    simp [hidle (h hother)] at hstep
  cases acts_of_step taken with
  | @works act s _ _ hnext =>
      subst hnext
      refine ⟨a, (foldl_react_frame events).2.1.trans ha, fun hother => h ?_⟩
      cases ({ m with scheduler := s } : Monitor).hears_foldl_react events with
      | nothing hstage => exact hstage ▸ hother
      | answer hown =>
          have hown : m.stage = _ := hown
          simp [hown]
  | adjusts hact hadjust => exact adjusted ha rfl (Adjuster.step_of_idle hact) hadjust
  | activates _ _ hnone => simp [ha] at hnone
  | @observes _ a' _ _ _ _ _ _ hnext =>
      subst hnext
      exact ⟨a', rfl, fun hother => absurd rfl hother⟩
  | stops _ _ hnext =>
      subst hnext
      refine ⟨a, m.stopScheduler_frame.2.1.trans ha, h.congr fun hother => ?_⟩
      exact m.stage_stopScheduler ▸ hother
  | settles _ hadjust =>
      exact adjusted (n := { m with attempt := none }) ha rfl
        (fun hidle => by simp [Adjuster.step, hidle]) hadjust
  | leaves hrunning _ hnext =>
      subst hnext
      exact ⟨a, (m.close_frame (.ok ())).2.1.trans ha, h.congr fun _ => by simp [hrunning]⟩
  | @dismisses n _ hadjust hnext =>
      subst hnext
      obtain ⟨-, b, a', attempt, -, hstep, ha', -⟩ := adjust_eq_some hadjust
      refine ⟨a', (n.close_frame (.ok ())).2.1.trans ha', fun _ => ?_⟩
      -- only an adjuster that waits can be told to stop
      simp only [Adjuster.step] at hstep
      split at hstep
      · cases hstep
        rfl
      · contradiction
  | finishes hclosing _ _ hnext =>
      subst hnext
      exact ⟨a, ha, h.congr fun _ => by simp [hclosing]⟩

/-! ## Without an adjuster -/

/-- A monitor without an adjuster: its only call comes before its scheduler's run can end. -/
structure Plain (m : Monitor) : Prop where
  adjuster : m.adjuster = none
  attempt : m.attempt = none
  stage : m.stage ≠ .adjusting
  waits : ∀ caller, Waits m.scheduler caller → m.stage = .activating caller
  leads : ∀ own, m.stage = .activating own → m.scheduler.Leads own

theorem Plain.ownsCalls (h : m.Plain) : m.OwnsCalls := by
  intro caller hwaits
  simp [owns, h.waits caller hwaits]

theorem Plain.scheduler (h : m.Plain) (linked : m.scheduler.Linked) (queued : m.scheduler.Queued)
    (ranked : m.scheduler.Ranked) {act : SchedulerAction} {s : Scheduler}
    (hallows : m.allows act = true) (taken : m.scheduler.step act = some (s, events)) :
    (events.foldl react { m with scheduler := s }).Plain := by
  obtain ⟨hcontrol, hadjuster, hattempt⟩ :=
    ({ m with scheduler := s } : Monitor).foldl_react_frame events
  have hears : Hears m _ events :=
    (({ m with scheduler := s } : Monitor).hears_foldl_react events).congr rfl
  have hphase := ({ m with scheduler := s } : Monitor).phase_foldl_react events
  generalize events.foldl react { m with scheduler := s } = m' at *
  have hmove : m.scheduler.move (.act act) = some (s, events) := taken
  have hmoved : Scheduler.Moved m.scheduler s (.act act) events := moved hmove
  have hwaits : ∀ caller, Waits m'.scheduler caller → m.stage = .activating caller ∧
      ∃ asking, s.callers.get? caller = some asking := by
    intro caller hwaits
    obtain ⟨asking, state, plan, hcaller, hrequest⟩ := (waits_congr hcontrol).1 hwaits
    refine ⟨?_, asking, hcaller⟩
    rcases hmoved.callers caller asking hcaller with ⟨before, hbefore, hsame⟩ | ⟨-, hcall⟩
    · exact h.waits caller ⟨before, state, plan, hbefore, hsame.trans hrequest⟩
    · simp only [hrequest, Move.act.injEq, reduceCtorEq, or_false] at hcall
      subst hcall
      simp [allows] at hallows
  have hattempt : m'.attempt = none := by
    rcases hattempt with ⟨hsame, -⟩ | ⟨_, _, hpending, -⟩
    · exact hsame.trans h.attempt
    · exact absurd (h.attempt.symm.trans hpending) (by simp)
  cases hears with
  | answer hown hreturned hanswered =>
      refine ⟨hadjuster.trans h.adjuster, hattempt, hanswered.not_adjusting, fun caller hcaller => ?_,
        fun own hactivating => absurd hactivating (hanswered.not_activating own)⟩
      obtain ⟨hstage, asking, hasking⟩ := hwaits caller hcaller
      obtain rfl := MonitorStage.activating.inj (hstage.symm.trans hown)
      rw [hmoved.returned _ _ hreturned] at hasking
      contradiction
  | nothing hstage hnone =>
      refine ⟨hadjuster.trans h.adjuster, hattempt, hstage ▸ h.stage,
        fun caller hcaller => hstage.trans (hwaits caller hcaller).1, fun own hown => ?_⟩
      rw [hstage] at hown
      refine Scheduler.Leads.congr (s := s) ?_ hcontrol hphase
      refine (h.leads own hown).move linked queued ranked hmove
        (fun result => hnone own result hown) fun hdrop => ?_
      obtain rfl := Move.act.inj hdrop
      simp [allows, owns, hown] at hallows

theorem Plain.activates (h : m.Plain) (sole : m.scheduler.Sole) (hidle : m.isRunning = false)
    (hover : m.scheduler.run = none) (hadjuster : m'.adjuster = none)
    (hattempt : m'.attempt = m.attempt) (hstage : m'.stage = .activating m.scheduler.nextId)
    (hrun : m'.scheduler.run = some {})
    (hcallers : m'.scheduler.callers =
      m.scheduler.callers.insert m.scheduler.nextId { request := .change .active m.plan }) :
    m'.Plain := by
  refine ⟨hadjuster, hattempt.trans h.attempt, by simp [hstage], fun caller hwaits => ?_,
    fun own hown => ⟨by simp [Scheduler.phase, hrun], ?_, fun id asking hasking hrequest => ?_⟩⟩
  · obtain ⟨asking, state, plan, hcaller, hrequest⟩ := hwaits
    rw [hcallers, Table.get?_insert] at hcaller
    split at hcaller
    · next hnew => rw [hstage, hnew]
    · have hbefore := h.waits caller ⟨asking, state, plan, hcaller, hrequest⟩
      simp [isRunning, hbefore] at hidle
  · obtain rfl := MonitorStage.activating.inj (hstage.symm.trans hown)
    rw [hcallers, Table.get?_insert_self]
    exact ⟨_, rfl, by simp⟩
  · rw [hcallers, Table.get?_insert] at hasking
    split at hasking
    · obtain rfl := Option.some.inj hasking
      contradiction
    · -- a run that is still to end would be there
      obtain ⟨run, hsome, -⟩ := sole id asking hasking hrequest
      simp [hover] at hsome

theorem Plain.congr (h : m.Plain) (hcontrol : m'.scheduler.control = m.scheduler.control)
    (hadjuster : m'.adjuster = m.adjuster) (hattempt : m'.attempt = m.attempt)
    (hphase : m'.scheduler.phase = m.scheduler.phase)
    (hstage : m'.stage = m.stage ∨ m'.stage ≠ .adjusting ∧
      (∀ own, m.stage ≠ .activating own) ∧ ∀ own, m'.stage ≠ .activating own) : m'.Plain := by
  refine ⟨hadjuster.trans h.adjuster, hattempt.trans h.attempt, ?_, fun caller hwaits => ?_,
    fun own hown => ?_⟩
  · rcases hstage with hsame | ⟨hother, -⟩
    · exact hsame ▸ h.stage
    · exact hother
  · have hbefore := h.waits caller ((waits_congr hcontrol).1 hwaits)
    rcases hstage with hsame | ⟨-, hnone, -⟩
    · exact hsame.trans hbefore
    · exact absurd hbefore (hnone caller)
  · rcases hstage with hsame | ⟨-, -, hnone⟩
    · exact (h.leads own (hsame ▸ hown)).congr hcontrol hphase
    · exact absurd hown (hnone own)

theorem Plain.step (h : m.Plain) (linked : m.scheduler.Linked) (sole : m.scheduler.Sole)
    (queued : m.scheduler.Queued) (ranked : m.scheduler.Ranked)
    (taken : m.step action = some (m', events)) : m'.Plain := by
  have unadjusted {n n' : Monitor} {act : AdjusterAction} {raised : List SchedulerEvent}
      (hn : n.adjuster = none) (hadjust : n.adjust act = some (n', raised)) : False := by
    obtain ⟨-, a, -, -, ha, -⟩ := adjust_eq_some hadjust
    simp [hn] at ha
  cases acts_of_step taken with
  | works hallows hstep hnext => exact hnext ▸ h.scheduler linked queued ranked hallows hstep
  | adjusts _ hadjust => exact (unadjusted h.adjuster hadjust).elim
  | activates hidle hover hnone _ hnext =>
      subst hnext
      exact h.activates sole hidle hover hnone rfl rfl rfl rfl
  | observes _ _ ha => simp [h.adjuster] at ha
  | stops _ _ hnext =>
      subst hnext
      obtain ⟨hcontrol, hadjuster, hattempt⟩ := m.stopScheduler_frame
      exact h.congr hcontrol hadjuster hattempt m.phase_stopScheduler (.inl m.stage_stopScheduler)
  | settles hanswered => simp [h.attempt] at hanswered
  | leaves hrunning _ hnext =>
      subst hnext
      obtain ⟨hcontrol, hadjuster, hattempt⟩ := m.close_frame (.ok ())
      refine h.congr hcontrol hadjuster hattempt m.phase_stopScheduler (.inr ?_)
      simp [close, hrunning]
  | dismisses _ hadjust => exact (unadjusted h.adjuster hadjust).elim
  | finishes hclosing _ _ hnext =>
      subst hnext
      exact h.congr rfl rfl rfl rfl (.inr (by simp [hclosing]))

end Cadence.Monitor
