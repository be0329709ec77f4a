import Cadence.Monitor
import Cadence.Proofs.Adjuster.Observing
import Cadence.Proofs.Scheduler.Moves

/-!
# What each action of a monitor does

A monitor lets its scheduler work and asks it for what its adjuster attempts.
Whatever else it does leaves the control of the scheduler alone.
-/

namespace Cadence

/-- Whether the adjuster gets on with an observation, or begins the next one. -/
def AdjusterAction.isObserving : AdjusterAction → Bool
  | standby _ | readOnly _ | take _ _ | wake => true
  | _ => false

theorem Adjuster.step_of_idle {a : Adjuster} {action : AdjusterAction}
    (h : action.isObserving = true) (idle : a.stage = .idle) : a.step action = none := by
  cases action with
  | standby | readOnly | take | wake => simp [step, idle]
  | _ => contradiction

namespace Monitor

open Scheduler (control)

variable {m m' : Monitor} {events : List SchedulerEvent}

@[simp] theorem publish_adjuster : m.publish.adjuster = m.adjuster := by
  unfold publish
  split <;> simp_all

@[simp] theorem publish_attempt : m.publish.attempt = m.attempt := by
  unfold publish
  split <;> rfl

@[simp] theorem publish_control : m.publish.scheduler.control = m.scheduler.control := by
  unfold publish
  split <;> rfl

@[simp] theorem publish_stage : m.publish.stage = m.stage := by
  unfold publish
  split <;> rfl

@[simp] theorem publish_run : m.publish.scheduler.run = m.scheduler.run := by
  unfold publish
  split <;> rfl

theorem stopScheduler_frame :
    m.stopScheduler.scheduler.control = m.scheduler.control ∧
      m.stopScheduler.adjuster = m.adjuster ∧ m.stopScheduler.attempt = m.attempt := by
  unfold stopScheduler
  split
  · next s events h =>
      obtain ⟨run, -, hnext⟩ := Scheduler.requestStop_eq_some h
      cases hnext
      exact ⟨rfl, rfl, rfl⟩
  · exact ⟨rfl, rfl, rfl⟩

theorem close_frame (result : Except PlanError Unit) :
    (m.close result).scheduler.control = m.scheduler.control ∧
      (m.close result).adjuster = m.adjuster ∧ (m.close result).attempt = m.attempt :=
  m.stopScheduler_frame

theorem returned_frame (caller : Nat) (result : Except PlanError Unit) :
    (m.returned caller result).scheduler.control = m.scheduler.control ∧
      (m.returned caller result).adjuster = m.adjuster ∧
      (m.returned caller result).attempt =
        if m.attempt = some (.pending caller) then some (.answered result.isOk) else m.attempt := by
  have hanswered : ∀ answered : Monitor,
      answered = (if m.attempt = some (.pending caller) then
        { m with attempt := some (.answered result.isOk) } else m) →
      answered.scheduler.control = m.scheduler.control ∧ answered.adjuster = m.adjuster ∧
        answered.attempt =
          if m.attempt = some (.pending caller) then some (.answered result.isOk)
          else m.attempt := by
    rintro _ rfl
    split <;> exact ⟨rfl, rfl, rfl⟩
  unfold returned
  extract_lets answered
  obtain ⟨hcontrol, hadjuster, hattempt⟩ := hanswered answered rfl
  split
  · split
    · split
      · exact ⟨hcontrol, hadjuster, hattempt⟩
      · obtain ⟨hclosed, hkept, hsame⟩ := answered.close_frame ‹_›
        exact ⟨hclosed.trans hcontrol, hkept.trans hadjuster, hsame.trans hattempt⟩
    · exact ⟨hcontrol, hadjuster, hattempt⟩
  · exact ⟨hcontrol, hadjuster, hattempt⟩

theorem foldl_react_frame (events : List SchedulerEvent) :
    (events.foldl react m).scheduler.control = m.scheduler.control ∧
      (events.foldl react m).adjuster = m.adjuster ∧
      ((events.foldl react m).attempt = m.attempt ∧
          (∀ caller result, m.attempt = some (.pending caller) → .returned caller result ∉ events) ∨
        ∃ caller result, m.attempt = some (.pending caller) ∧ .returned caller result ∈ events ∧
          (events.foldl react m).attempt = some (.answered result.isOk)) := by
  induction events generalizing m with
  | nil => exact ⟨rfl, rfl, .inl ⟨rfl, by simp⟩⟩
  | cons event rest ih =>
      rw [List.foldl_cons]
      obtain ⟨hcontrol, hadjuster, hattempt⟩ := ih (m := m.react event)
      cases event with
      | returned caller result =>
          obtain ⟨hcontrol', hadjuster', hattempt'⟩ := m.returned_frame caller result
          refine ⟨hcontrol.trans hcontrol', hadjuster.trans hadjuster', ?_⟩
          change (m.react (.returned caller result)).attempt = _ at hattempt'
          rw [hattempt'] at hattempt
          by_cases hown : m.attempt = some (.pending caller)
          · refine .inr ⟨caller, result, hown, List.mem_cons_self, ?_⟩
            simpa [hown] using hattempt
          · simp only [hown, if_false] at hattempt
            refine hattempt.imp ?_ ?_
            · rintro ⟨hsame, hnone⟩
              refine ⟨hsame, fun other result' hother hmem => ?_⟩
              rcases List.mem_cons.1 hmem with hfirst | hmem
              · injection hfirst with hcaller
                exact hown (hcaller ▸ hother)
              · exact hnone other result' hother hmem
            · rintro ⟨other, result', hother, hmem, hanswer⟩
              exact ⟨other, result', hother, List.mem_cons_of_mem _ hmem, hanswer⟩
      | _ =>
          refine ⟨hcontrol, hadjuster, hattempt.imp ?_ ?_⟩
          · rintro ⟨hsame, hnone⟩
            exact ⟨hsame, fun caller result hown => by simpa using hnone caller result hown⟩
          · rintro ⟨caller, result, hown, hmem, hanswer⟩
            exact ⟨caller, result, hown, List.mem_cons_of_mem _ hmem, hanswer⟩

/-- What an attempt comes to: collection stops at once, a change of plan is asked for. -/
def Made (m m' : Monitor) (x : Attempt) : Prop :=
  (x.pauses = true ∧ m'.scheduler.control = m.scheduler.pause.control ∧
      m'.attempt = some (.answered true)) ∨
    (x.pauses = false ∧
      m'.scheduler.control = (m.scheduler.call (.change x.state x.plan)).control ∧
      m'.attempt = some (.pending m.scheduler.nextId))

theorem adjust_eq_some {action : AdjusterAction} (h : m.adjust action = some (m', events)) :
    events = [] ∧ ∃ a a' attempt, m.adjuster = some a ∧ a.step action = some (a', attempt) ∧
      m'.adjuster = some a' ∧
      ((attempt = none ∧ m'.scheduler.control = m.scheduler.control ∧ m'.attempt = m.attempt) ∨
        ∃ x, attempt = some x ∧ Made m m' x) := by
  obtain ⟨a, ha, h⟩ := Option.bind_eq_some_iff.1 h
  obtain ⟨⟨a', attempt⟩, hstep, hnext⟩ := Option.map_eq_some_iff.1 h
  obtain ⟨rfl, rfl⟩ := Prod.mk.inj hnext
  refine ⟨rfl, a, a', attempt, ha, hstep, ?_⟩
  cases attempt with
  | none => exact ⟨rfl, .inl ⟨rfl, rfl, rfl⟩⟩
  | some x =>
      cases hpauses : x.pauses with
      | true =>
          simp only [make, Attempt.call, hpauses, if_true]
          exact ⟨rfl, .inr ⟨x, rfl, .inl ⟨hpauses, rfl, rfl⟩⟩⟩
      | false =>
          simp only [make, Attempt.call, hpauses, Bool.false_eq_true, if_false]
          exact ⟨rfl, .inr ⟨x, rfl, .inr ⟨hpauses, rfl, rfl⟩⟩⟩

/-- What a monitor does in a step. -/
inductive Acts (m m' : Monitor) (events : List SchedulerEvent) : MonitorAction → Prop
  | works {act : SchedulerAction} {s : Scheduler} : m.allows act = true →
      m.scheduler.step act = some (s, events) →
      m' = events.foldl react { m with scheduler := s } → Acts m m' events (.scheduler act)
  | adjusts {act : AdjusterAction} : act.isObserving = true →
      m.adjust act = some (m', events) → Acts m m' events (.adjuster act)
  | activates : m.isRunning = false → m.scheduler.run = none → m.adjuster = none → events = [] →
      m' = { m with
        scheduler := Scheduler.call { m.scheduler with run := some {} } (.change .active m.plan)
        stopping := false
        stage := .activating m.scheduler.nextId } → Acts m m' events .run
  | observes {a a' : Adjuster} {attempt : Option Attempt} : m.isRunning = false →
      m.scheduler.run = none → m.adjuster = some a →
      a.step (.observe true) = some (a', attempt) → events = [] →
      m' = { m with
        scheduler := { m.scheduler with run := some {} }
        adjuster := some a'
        stopping := false
        stage := .adjusting } → Acts m m' events .run
  | stops : m.isRunning = true → events = [] → m' = { m.stopScheduler with stopping := true } →
      Acts m m' events .stop
  | settles {succeeded : Bool} {date : Utc} : m.attempt = some (.answered succeeded) →
      ({ m with attempt := none } : Monitor).adjust (.settled succeeded date) = some (m', events) →
      Acts m m' events (.settle date)
  | leaves : m.stage = .running → events = [] → m' = m.close (.ok ()) → Acts m m' events .leave
  | dismisses {n : Monitor} : m.stage = .adjusting → m.adjust .stop = some (n, events) →
      m' = n.close (.ok ()) → Acts m m' events .leave
  | finishes {result : Except PlanError Unit} : m.stage = .closing result →
      m.scheduler.run = none → events = [] → m' = { m with stage := .ended result } →
      Acts m m' events .finish

theorem acts_of_run (taken : m.run = some (m', events)) : Acts m m' events .run := by
  unfold run at taken
  split at taken
  · contradiction
  · next hidle =>
      have hidle : m.isRunning = false := by simpa using hidle
      obtain ⟨⟨s, raised⟩, hstart, hnext⟩ := Option.bind_eq_some_iff.1 taken
      obtain ⟨hover, hstarted⟩ := Scheduler.startRun_eq_some hstart
      obtain ⟨rfl, rfl⟩ := Prod.mk.inj hstarted
      cases ha : m.adjuster with
      | none =>
          simp only [ha, Option.some.injEq] at hnext
          obtain ⟨rfl, rfl⟩ := Prod.mk.inj hnext
          exact .activates hidle hover ha rfl (by rw [← ha])
      | some a =>
          simp only [ha] at hnext
          obtain ⟨⟨a', attempt⟩, hobserve, hnext⟩ := Option.map_eq_some_iff.1 hnext
          obtain ⟨rfl, rfl⟩ := Prod.mk.inj hnext
          exact .observes hidle hover ha hobserve rfl rfl

theorem acts_of_leave (taken : m.leave = some (m', events)) : Acts m m' events .leave := by
  unfold leave at taken
  split at taken
  · split at taken
    · next hrunning =>
        cases taken
        exact .leaves hrunning rfl rfl
    · next hadjusting =>
        obtain ⟨⟨n, raised⟩, hadjust, hnext⟩ := Option.map_eq_some_iff.1 taken
        obtain ⟨rfl, rfl⟩ := Prod.mk.inj hnext
        exact .dismisses hadjusting hadjust rfl
    · contradiction
  · contradiction

theorem acts_of_step {action : MonitorAction} (taken : m.step action = some (m', events)) :
    Acts m m' events action := by
  cases action with
  | scheduler act =>
      change m.schedulerStep act = some (m', events) at taken
      unfold schedulerStep at taken
      split at taken
      · next hallows =>
          obtain ⟨⟨s, raised⟩, hstep, hnext⟩ := Option.map_eq_some_iff.1 taken
          obtain ⟨rfl, rfl⟩ := Prod.mk.inj hnext
          exact .works hallows hstep rfl
      · contradiction
  | adjuster act =>
      cases act with
      | standby answer => exact .adjusts rfl taken
      | readOnly answer => exact .adjusts rfl taken
      | take now date => exact .adjusts rfl taken
      | wake => exact .adjusts rfl taken
      | _ => contradiction
  | run => exact acts_of_run taken
  | stop =>
      change m.stop = some (m', events) at taken
      unfold stop at taken
      split at taken
      · next hrunning =>
          cases taken
          exact .stops hrunning rfl rfl
      · contradiction
  | settle date =>
      change m.settle date = some (m', events) at taken
      unfold settle at taken
      split at taken
      · next hanswered => exact .settles hanswered taken
      · contradiction
  | leave => exact acts_of_leave taken
  | finish =>
      change m.finish = some (m', events) at taken
      unfold finish at taken
      split at taken
      · next hclosing =>
          split at taken
          · next hover =>
              cases taken
              exact .finishes hclosing (Option.isNone_iff_eq_none.1 hover) rfl rfl
          · contradiction
      · contradiction

theorem scheduler_eq_some {act : SchedulerAction}
    (taken : m.step (.scheduler act) = some (m', events)) :
    ∃ s, m.allows act = true ∧ m.scheduler.step act = some (s, events) ∧
      m' = events.foldl react { m with scheduler := s } := by
  cases acts_of_step taken with
  | works hallows hstep hnext => exact ⟨_, hallows, hstep, hnext⟩

/-- How a step that is none of the scheduler's leaves the adjuster. -/
inductive Adjusted (m m' : Monitor) (action : MonitorAction) (a : Adjuster) : Adjuster → Prop
  | aside : m'.scheduler.control = m.scheduler.control → m'.attempt = m.attempt →
      Adjusted m m' action a a
  | moved {act : AdjusterAction} {a' : Adjuster} : (∀ succeeded date, act ≠ .settled succeeded date) →
      a.step act = some (a', none) → m'.scheduler.control = m.scheduler.control →
      m'.attempt = m.attempt → Adjusted m m' action a a'
  | made {act : AdjusterAction} {a' : Adjuster} {x : Attempt} : action = .adjuster act →
      a.step act = some (a', some x) → Made m m' x → Adjusted m m' action a a'
  | settled {succeeded : Bool} {date : Utc} {a' : Adjuster} :
      m.attempt = some (.answered succeeded) →
      a.step (.settled succeeded date) = some (a', none) →
      m'.scheduler.control = m.scheduler.control → m'.attempt = none → Adjusted m m' action a a'

theorem step_cases {action : MonitorAction} {a : Adjuster} (ha : m.adjuster = some a)
    (taken : m.step action = some (m', events)) :
    (∃ act s, action = .scheduler act ∧ m.allows act = true ∧
        m.scheduler.step act = some (s, events) ∧
        m' = events.foldl react { m with scheduler := s }) ∨
      events = [] ∧ ∃ a', m'.adjuster = some a' ∧ Adjusted m m' action a a' := by
  cases acts_of_step taken with
  | works hallows hstep hnext => exact .inl ⟨_, _, rfl, hallows, hstep, hnext⟩
  | @adjusts act hact hadjust =>
      obtain ⟨rfl, b, a', attempt, hb, hstep, ha', hattempt⟩ := adjust_eq_some hadjust
      obtain rfl : a = b := Option.some.inj (ha.symm.trans hb)
      have hact : ∀ succeeded date, act ≠ .settled succeeded date := by
        rintro succeeded date rfl
        contradiction
      refine .inr ⟨rfl, a', ha', ?_⟩
      obtain ⟨rfl, hcontrol, hsame⟩ | ⟨x, rfl, hmade⟩ := hattempt
      · exact .moved hact hstep hcontrol hsame
      · exact .made rfl hstep hmade
  | activates _ _ hnone => simp [ha] at hnone
  | @observes b a' attempt _ _ hb hobserve _ hnext =>
      obtain rfl : a = b := Option.some.inj (ha.symm.trans hb)
      subst hnext
      refine .inr ⟨‹_›, a', rfl, ?_⟩
      cases attempt with
      | none => exact .moved (by simp) hobserve rfl rfl
      | some x => simpa using Adjuster.observes_of_attempt hobserve
  | stops _ hevents hnext =>
      subst hnext
      obtain ⟨hcontrol, hadjuster, hattempt⟩ := m.stopScheduler_frame
      exact .inr ⟨hevents, a, hadjuster.trans ha, .aside hcontrol hattempt⟩
  | settles hanswered hadjust =>
      obtain ⟨rfl, b, a', attempt, hb, hstep, ha', hattempt⟩ := adjust_eq_some hadjust
      obtain rfl : a = b := Option.some.inj (ha.symm.trans hb)
      refine .inr ⟨rfl, a', ha', ?_⟩
      obtain ⟨rfl, hcontrol, hsame⟩ | ⟨x, rfl, -⟩ := hattempt
      · exact .settled hanswered hstep hcontrol hsame
      · simpa using Adjuster.observes_of_attempt hstep
  | leaves _ hevents hnext =>
      subst hnext
      obtain ⟨hcontrol, hadjuster, hattempt⟩ := m.close_frame (.ok ())
      exact .inr ⟨hevents, a, hadjuster.trans ha, .aside hcontrol hattempt⟩
  | @dismisses n _ hadjust hnext =>
      subst hnext
      obtain ⟨rfl, b, a', attempt, hb, hstep, ha', hattempt⟩ := adjust_eq_some hadjust
      obtain rfl : a = b := Option.some.inj (ha.symm.trans hb)
      obtain ⟨hcontrol, hadjuster, hsame⟩ := n.close_frame (.ok ())
      refine .inr ⟨rfl, a', hadjuster.trans ha', ?_⟩
      obtain ⟨rfl, hcontrol', hsame'⟩ | ⟨x, rfl, -⟩ := hattempt
      · exact .moved (by simp) hstep (hcontrol.trans hcontrol') (hsame.trans hsame')
      · simpa using Adjuster.observes_of_attempt hstep
  | finishes _ _ hevents hnext =>
      subst hnext
      exact .inr ⟨hevents, a, ha, .aside rfl rfl⟩

end Monitor

end Cadence
