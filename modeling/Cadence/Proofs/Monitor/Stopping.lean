import Cadence.Proofs.Monitor.Actions
import Cadence.Proofs.Scheduler.Pausing

/-!
# When a monitor collects nothing

A state without a plan pauses the scheduler of a monitor.  Nothing is collected
in it then, unless a change of plan was under way at that moment: this one still
goes live and ends the pause.
-/

namespace Cadence.Monitor

open Scheduler (Waits Underway Carries Moved moved)

/-- What holds between a monitor and its adjuster. -/
structure Attuned (m : Monitor) (a : Adjuster) : Prop where
  waits : ∀ caller, Waits m.scheduler caller → m.attempt = some (.pending caller)
  attempting : m.attempt ≠ none → a.IsAttempting
  pending : ∀ caller x now, m.attempt = some (.pending caller) →
    a.stage = .attempting x now → x.pauses = false
  current : a.tracker.current.plan = (a.policy.rule a.tracker.current.state).plan
  attempted : ∀ x now, a.stage = .attempting x now → x.plan = (a.policy.rule x.state).plan

section Attuned

variable {m m' : Monitor} {a a' : Adjuster} {action : MonitorAction} {events : List SchedulerEvent}

theorem waits_congr {s s' : Scheduler} (h : s'.control = s.control) {caller : Nat} :
    Waits s' caller ↔ Waits s caller := by
  have hcallers : s'.callers = s.callers := congrArg Scheduler.Control.callers h
  rw [Waits, Waits, hcallers]

theorem Attuned.attempt_eq_none (h : Attuned m a) (hidle : ¬ a.IsAttempting) : m.attempt = none :=
  Decidable.byContradiction fun hattempt => hidle (h.attempting hattempt)

theorem Attuned.scheduler {act : SchedulerAction} {s : Scheduler} (h : Attuned m a)
    (hallows : m.allows act = true) (taken : m.scheduler.step act = some (s, events)) :
    Attuned (events.foldl react { m with scheduler := s }) a := by
  have hmoved : Moved m.scheduler s (.act act) events := moved taken
  obtain ⟨hcontrol, -, hattempt⟩ := ({ m with scheduler := s } : Monitor).foldl_react_frame events
  refine ⟨fun caller hwaits => ?_, fun hsome => ?_, fun caller x now hpending hstage => ?_,
    h.current, h.attempted⟩
  · obtain ⟨asking, state, plan, hcaller, hrequest⟩ := (waits_congr hcontrol).1 hwaits
    have hpending : m.attempt = some (.pending caller) := by
      rcases hmoved.callers caller asking hcaller with ⟨before, hbefore, hsame⟩ | ⟨-, hcall⟩
      · exact h.waits caller ⟨before, state, plan, hbefore, hsame.trans hrequest⟩
      · simp only [hrequest, Move.act.injEq, reduceCtorEq, or_false] at hcall
        subst hcall
        simp [allows] at hallows
    rcases hattempt with ⟨hsame, -⟩ | ⟨other, result, hother, hreturned, -⟩
    · exact hsame.trans hpending
    · obtain rfl : other = caller := by simpa [hpending] using hother.symm
      rw [hmoved.returned other result hreturned] at hcaller
      contradiction
  · rcases hattempt with ⟨hsame, -⟩ | ⟨other, result, hother, -, -⟩
    · exact h.attempting (hsame ▸ hsome)
    · exact h.attempting (by simp [show m.attempt = _ from hother])
  · rcases hattempt with ⟨hsame, -⟩ | ⟨other, result, -, -, hanswered⟩
    · exact h.pending caller x now (hsame.symm.trans hpending) hstage
    · rw [hanswered] at hpending
      simp at hpending

theorem Attuned.adjusted (h : Attuned m a) (hadjusted : Adjusted m m' action a a') :
    Attuned m' a' := by
  cases hadjusted with
  | aside hcontrol hattempt =>
      exact ⟨fun caller hwaits => hattempt.trans (h.waits caller ((waits_congr hcontrol).1 hwaits)),
        fun hsome => h.attempting (hattempt ▸ hsome),
        fun caller x now hpending => h.pending caller x now (hattempt ▸ hpending), h.current,
        h.attempted⟩
  | moved hact hstep hcontrol hattempt =>
      obtain ⟨hpolicy, ⟨-, hidle, hidle', hcurrent⟩ | ⟨x, now, ⟨⟩, -⟩ |
        ⟨x, now, succeeded, date, hsettled, -⟩⟩ := Adjuster.step_cases hstep
      · have hnone : m'.attempt = none := hattempt.trans (h.attempt_eq_none hidle)
        refine ⟨fun caller hwaits => ?_, fun hsome => absurd hnone hsome, fun caller x now hpending => ?_,
          ?_, fun x now hstage => absurd ⟨x, now, hstage⟩ hidle'⟩
        · exact hattempt.trans (h.waits caller ((waits_congr hcontrol).1 hwaits))
        · simp [hnone] at hpending
        · rw [hcurrent, hpolicy]
          exact h.current
      · exact absurd hsettled (hact succeeded date)
  | @made act a' x haction hstep hmade =>
      obtain ⟨hpolicy, ⟨⟨⟩, -⟩ | ⟨_, now, ⟨⟩, hidle, hstage, hcurrent, hplan⟩ |
        ⟨_, _, _, _, -, ⟨⟩, -⟩⟩ := Adjuster.step_cases hstep
      have hnone := h.attempt_eq_none hidle
      have hwaits : ∀ caller, ¬ Waits m.scheduler caller := fun caller hcaller => by
        simpa [hnone] using h.waits caller hcaller
      have hattempting : ∀ x' now', a'.stage = .attempting x' now' → x' = x := by
        intro x' now' hstage'
        rw [hstage] at hstage'
        cases hstage'
        rfl
      refine ⟨fun caller hcaller => ?_, fun _ => ⟨x, now, hstage⟩, fun caller x' now' hpending hstage' => ?_,
        ?_, fun x' now' hstage' => ?_⟩
      · obtain ⟨-, hcontrol, -⟩ | ⟨-, hcontrol, hattempt⟩ := hmade
        · exact absurd ((waits_congr (s := m.scheduler.pause) hcontrol).1 hcaller) (hwaits caller)
        · obtain ⟨asking, state, plan, hget, hrequest⟩ := (waits_congr hcontrol).1 hcaller
          change (m.scheduler.callers.insert m.scheduler.nextId _).get? caller = _ at hget
          rw [Table.get?_insert] at hget
          split at hget
          · next hnew => rw [hattempt, hnew]
          · exact absurd ⟨asking, state, plan, hget, hrequest⟩ (hwaits caller)
      · rw [hattempting x' now' hstage']
        obtain ⟨-, -, hattempt⟩ | ⟨hpauses, -, -⟩ := hmade
        · simp [hattempt] at hpending
        · exact hpauses
      · rw [hcurrent, hpolicy]
        exact h.current
      · rw [hattempting x' now' hstage', hpolicy]
        exact hplan
  | @settled succeeded date a' hanswered hstep hcontrol hattempt =>
      obtain ⟨hpolicy, ⟨-, hidle, -⟩ | ⟨_, _, ⟨⟩, -⟩ |
        ⟨x, now, _, _, ⟨⟩, -, hstage, hidle', hcurrent⟩⟩ := Adjuster.step_cases hstep
      · exact absurd (h.attempting (by simp [hanswered])) hidle
      · refine ⟨fun caller hwaits => ?_, fun hsome => absurd hattempt hsome,
          fun caller x now hpending => ?_, ?_, fun x now hstage => absurd ⟨x, now, hstage⟩ hidle'⟩
        · simpa [hanswered] using h.waits caller ((waits_congr hcontrol).1 hwaits)
        · simp [hattempt] at hpending
        · rw [hcurrent, hpolicy]
          cases succeeded with
          | true => exact h.attempted x now hstage
          | false => exact h.current

end Attuned

/-- The plan of the state that the adjuster has decided for. -/
def decided (m : Monitor) (a : Adjuster) : String :=
  match m.attempt, a.stage with
  | some (.answered true), .attempting x _ => x.plan
  | _, _ => a.tracker.current.plan

def Pauses (x : Step Monitor MonitorAction SchedulerEvent) : Prop :=
  ∃ a a' act attempt, x.before.adjuster = some a ∧ x.action = .adjuster act ∧
    a.step act = some (a', some attempt) ∧ attempt.pauses = true

abbrev History := List (Step Monitor MonitorAction SchedulerEvent)

/-- Since collection stopped, only a change that was under way then can have been activated. -/
def Stopped (history : History) (m : Monitor) : Prop :=
  (m.scheduler.changes = ∅ ∧ m.scheduler.active.state = none) ∨
    ∃ earlier p later, history = earlier ++ p :: later ∧ Pauses p ∧
      Carries p.before.scheduler m.scheduler ∧
      (m.scheduler.paused = true ∨ ∃ y ∈ later, ∃ change, .activated change ∈ y.events ∧
        Underway p.before.scheduler change)

section Stopped

variable {m m' : Monitor} {a a' : Adjuster} {action : MonitorAction} {events : List SchedulerEvent}
  {history : History}

theorem Stopped.snoc {move : Move} (h : Stopped history m)
    (hmoved : Moved m.scheduler m'.scheduler move events)
    (hcarries : Carries m.scheduler m'.scheduler) :
    Stopped (history ++ [⟨m, action, m', events⟩]) m' := by
  obtain ⟨hchanges, hactive⟩ | ⟨earlier, p, later, rfl, hp, hcarried, hended⟩ := h
  · left
    have hnone : ∀ change, .activated change ∉ events := by
      intro change hchange
      obtain ⟨c, hc, -⟩ := hmoved.activated change hchange
      simp [hchanges] at hc
    refine ⟨Table.ext_get? fun change => ?_, by rw [hmoved.active hnone, hactive]⟩
    cases hlater : m'.scheduler.changes.get? change with
    | none => rfl
    | some later =>
        obtain ⟨c, hc, -⟩ := hcarries change later hlater
        simp [hchanges] at hc
  · right
    refine ⟨earlier, p, later ++ [⟨m, action, m', events⟩], by simp, hp, hcarried.trans hcarries, ?_⟩
    by_cases hactivated : ∃ change, .activated change ∈ events
    · obtain ⟨change, hchange⟩ := hactivated
      obtain ⟨c, hc, hstage⟩ := hmoved.activated change hchange
      obtain ⟨first, hfirst, hbecomes⟩ := hcarried change c hc
      exact .inr ⟨_, List.mem_append_right _ (List.mem_singleton_self _), change, hchange, first, hfirst,
        fun h => hstage (hbecomes.ended h)⟩
    · rcases hended with hpaused | ⟨y, hy, hchange⟩
      · exact .inl (hmoved.paused.2 (.inr ⟨hpaused, fun change h => hactivated ⟨change, h⟩⟩))
      · exact .inr ⟨y, List.mem_append_left _ hy, hchange⟩

theorem stopped_adjusted (attuned : Attuned m a) (stopped : m.decided a = "" → Stopped history m)
    (ha : m.adjuster = some a) (hadjusted : Adjusted m m' action a a')
    (hdecided : m'.decided a' = "") : Stopped (history ++ [⟨m, action, m', []⟩]) m' := by
  have keep : m'.scheduler.control = m.scheduler.control → m.decided a = "" →
      Stopped (history ++ [⟨m, action, m', []⟩]) m' := by
    intro hcontrol hsame
    have hmoved : Moved m.scheduler m'.scheduler (.post "") [] :=
      .of_control_eq hcontrol (by simp) (by simp) (by simp)
    exact (stopped hsame).snoc hmoved
      (.of_eq (congrArg Scheduler.Control.changes hcontrol))
  cases hadjusted with
  | aside hcontrol hattempt =>
      refine keep hcontrol ?_
      rwa [decided, hattempt] at hdecided
  | moved hact hstep hcontrol hattempt =>
      obtain ⟨-, ⟨-, hidle, -, hcurrent⟩ | ⟨x, now, ⟨⟩, -⟩ |
        ⟨x, now, succeeded, date, hsettled, -⟩⟩ := Adjuster.step_cases hstep
      · have hnone := attuned.attempt_eq_none hidle
        refine keep hcontrol ?_
        simp only [decided, hattempt, hnone] at hdecided ⊢
        rwa [← hcurrent]
      · exact absurd hsettled (hact succeeded date)
  | @made act a' x haction hstep hmade =>
      obtain ⟨-, ⟨⟨⟩, -⟩ | ⟨_, now, ⟨⟩, hidle, -, hcurrent, -⟩ | ⟨_, _, _, _, -, ⟨⟩, -⟩⟩ :=
        Adjuster.step_cases hstep
      have hnone := attuned.attempt_eq_none hidle
      obtain ⟨hpauses, hcontrol, -⟩ | ⟨-, hcontrol, hattempt⟩ := hmade
      · have hchanges : m'.scheduler.changes = m.scheduler.changes :=
          congrArg Scheduler.Control.changes hcontrol
        have hpaused : m'.scheduler.paused = true := congrArg Scheduler.Control.paused hcontrol
        exact .inr ⟨history, _, [], rfl, ⟨a, a', act, x, ha, haction, hstep, hpauses⟩,
          .of_eq hchanges, .inl hpaused⟩
      · have hmoved : Moved m.scheduler m'.scheduler (.act (.call (.change x.state x.plan))) [] :=
          .of_call (by simp) (.inl rfl) hcontrol
        have hchanges : m'.scheduler.changes = m.scheduler.changes :=
          congrArg Scheduler.Control.changes hcontrol
        refine (stopped ?_).snoc hmoved (.of_eq hchanges)
        simp only [decided, hattempt, hnone] at hdecided ⊢
        rwa [← hcurrent]
  | @settled succeeded date a' hanswered hstep hcontrol hattempt =>
      obtain ⟨-, ⟨-, hidle, -⟩ | ⟨_, _, ⟨⟩, -⟩ | ⟨x, now, _, _, ⟨⟩, -, hstage, -, hcurrent⟩⟩ :=
        Adjuster.step_cases hstep
      · exact absurd (attuned.attempting (by simp [hanswered])) hidle
      · refine keep hcontrol ?_
        simp only [decided, hattempt, hanswered, hstage, hcurrent] at hdecided ⊢
        cases succeeded with
        | true => simpa using hdecided
        | false => simpa using hdecided

theorem stopped_scheduler (attuned : Attuned m a) (stopped : m.decided a = "" → Stopped history m)
    {act : SchedulerAction} {s : Scheduler}
    (taken : m.scheduler.step act = some (s, events))
    (hm' : m' = events.foldl react { m with scheduler := s }) (hdecided : m'.decided a = "") :
    Stopped (history ++ [⟨m, action, m', events⟩]) m' := by
  have hmoved : Moved m.scheduler s (.act act) events := moved taken
  obtain ⟨hcontrol, -, hattempt⟩ := ({ m with scheduler := s } : Monitor).foldl_react_frame events
  rw [← hm'] at hcontrol hattempt
  have hplan : ∀ caller, m.attempt = some (.pending caller) →
      m'.attempt ≠ some (.answered true) := by
    intro caller hpending hanswered
    obtain ⟨x, now, hstage⟩ := attuned.attempting (by simp [hpending])
    have hpauses := attuned.pending caller x now hpending hstage
    simp [decided, hanswered, hstage] at hdecided
    simp [Attempt.pauses, hdecided] at hpauses
  have hsame : m.decided a = "" := by
    rcases hattempt with ⟨hsame, -⟩ | ⟨caller, result, hpending, -, hanswered⟩
    · rwa [decided, show m'.attempt = m.attempt from hsame] at hdecided
    · have hpending : m.attempt = some (.pending caller) := hpending
      cases hok : result.isOk with
      | true => exact absurd (hok ▸ hanswered) (hplan caller hpending)
      | false => simpa [decided, hanswered, hok, hpending] using hdecided
  have hcarries : Carries m.scheduler m'.scheduler := by
    intro change later hlater
    have hlater : s.changes.get? change = some later := by
      rwa [show m'.scheduler.changes = s.changes from congrArg Scheduler.Control.changes hcontrol]
        at hlater
    rcases hmoved.changes change later hlater with hcarried | ⟨-, caller, haccepts, hevents⟩
    · exact hcarried
    · obtain ⟨-, asking, name, hcaller, hrequest, -⟩ := haccepts
      have hpending := attuned.waits caller ⟨asking, later.state, name, hcaller, hrequest⟩
      rcases hattempt with ⟨-, hnone⟩ | ⟨other, result, -, hreturned, hanswered⟩
      · exact absurd (by simp [hevents]) (hnone caller (.ok ()) hpending)
      · obtain ⟨-, rfl⟩ : other = caller ∧ result = .ok () := by simpa [hevents] using hreturned
        exact absurd hanswered (hplan caller hpending)
  exact (stopped hsame).snoc (hmoved.congr hcontrol) hcarries

end Stopped

section Runs

variable {config : Config} {policy : Policy} {store : PlanStore} {sinks : List String}
  {transform : Option (Batch → Batch)} {now : Nat} {date : Utc} {history : History} {m : Monitor}

theorem attuned_create :
    Attuned (create config store sinks transform now date)
      (.create policy config.readOnlyTimeout now date) := by
  have hattempt : (create config store sinks transform now date).attempt = none := publish_attempt
  refine ⟨fun caller hwaits => ?_, fun hsome => absurd hattempt hsome, fun caller x now hpending => ?_,
    rfl, fun x now hstage => ?_⟩
  · rw [create, waits_congr publish_control] at hwaits
    obtain ⟨asking, state, plan, hcaller, -⟩ := hwaits
    simp [Scheduler.create, Scheduler.say, Scheduler.setStatus] at hcaller
  · simp [hattempt] at hpending
  · simp [Adjuster.create] at hstage

theorem stopped_of_run (hpolicy : config.policy = some policy)
    (run : Run step (create config store sinks transform now date) history m) :
    ∃ a, m.adjuster = some a ∧ Attuned m a ∧ (m.decided a = "" → Stopped history m) := by
  induction run with
  | nil =>
      refine ⟨.create policy config.readOnlyTimeout now date, ?_, attuned_create, fun _ => ?_⟩
      · rw [create, publish_adjuster, hpolicy]
        rfl
      · have hcontrol : (create config store sinks transform now date).scheduler.control =
            (Scheduler.create _ _ store sinks).control := publish_control
        exact .inl ⟨congrArg Scheduler.Control.changes hcontrol,
          congrArg (·.active.state) hcontrol⟩
  | snoc _ taken ih =>
      obtain ⟨a, ha, hattuned, hstopped⟩ := ih
      rcases step_cases ha taken with ⟨act, s, -, hallows, hstep, hnext⟩ | ⟨rfl, a', ha', hadjusted⟩
      · refine ⟨a, ?_, hnext ▸ hattuned.scheduler hallows hstep,
          stopped_scheduler hattuned hstopped hstep hnext⟩
        rw [hnext, (foldl_react_frame _).2.1]
        exact ha
      · exact ⟨a', ha', hattuned.adjusted hadjusted, stopped_adjusted hattuned hstopped ha hadjusted⟩

theorem underway_of_handed (hpolicy : config.policy = some policy)
    (run : Run step (create config store sinks transform now date) history m) {a : Adjuster}
    (ha : m.adjuster = some a) (hempty : (a.policy.rule a.tracker.current.state).plan = "")
    (hattempt : m.attempt ≠ some (.answered true)) {action : MonitorAction} {m' : Monitor}
    {events : List SchedulerEvent} (taken : m.step action = some (m', events)) {name : WorkerName}
    {order : Order} (handed : .handed name order ∈ events) :
    ∃ earlier p later change, history = earlier ++ p :: later ∧ Pauses p ∧
      (∃ y ∈ later, .activated change ∈ y.events) ∧ Underway p.before.scheduler change := by
  obtain ⟨b, hb, hattuned, hstopped⟩ := stopped_of_run hpolicy run
  obtain rfl : a = b := Option.some.inj (ha.symm.trans hb)
  have hdecided : m.decided a = "" := by
    rw [decided]
    split
    · exact absurd ‹_› hattempt
    · rw [hattuned.current, hempty]
  obtain ⟨act, s, -, -, hstep, -⟩ | ⟨rfl, -⟩ := step_cases ha taken
  · obtain ⟨-, tick, -, horder⟩ := Scheduler.handed_of_step hstep handed
    obtain ⟨-, hactive⟩ | ⟨earlier, p, later, hhistory, hp, -, hended⟩ := hstopped hdecided
    · simp [Scheduler.orderAt, hactive] at horder
    · rcases hended with hpaused | ⟨y, hy, change, hactivated, hunderway⟩
      · simp [Scheduler.orderAt_of_paused hpaused] at horder
      · exact ⟨earlier, p, later, change, hhistory, hp, ⟨y, hy, hactivated⟩, hunderway⟩
  · simp at handed

end Runs

/-- A pause lasts until a change is activated, be it one asked for since or one that was outstanding.
So a monitor may collect in a state without a plan, but only if a change was under way when
collection stopped. -/
theorem paused_until_activated (start : Scheduler) (config : Config) (policy : Policy)
    (store : PlanStore) (sinks : List String) (transform : Option (Batch → Batch)) (now : Nat)
    (date : Utc) :
    (∀ {last : Scheduler} {earlier later : Scheduler.History}
        {p : Step Scheduler Move SchedulerEvent},
      Run Scheduler.move start (earlier ++ p :: later) last → p.action = .act .pause →
      (last.paused = true ↔
        ∀ change, Scheduler.Asked later change ∨ Scheduler.Outstanding p.after later change →
          ¬ Scheduler.Activated (Scheduler.sincePause later) change) ∧
      ∀ {action next events name order}, last.move action = some (next, events) →
        .handed name order ∈ events →
        ∃ change, Scheduler.Activated (Scheduler.sincePause later) change ∧
          (Scheduler.Asked later change ∨ Scheduler.Outstanding p.after later change)) ∧
    ∀ {history : History} {m a}, config.policy = some policy →
      Run step (create config store sinks transform now date) history m → m.adjuster = some a →
      (a.policy.rule a.tracker.current.state).plan = "" → m.attempt ≠ some (.answered true) →
      ∀ {action m' events name order}, m.step action = some (m', events) →
        .handed name order ∈ events →
        ∃ earlier p later change, history = earlier ++ p :: later ∧ Pauses p ∧
          (∃ y ∈ later, .activated change ∈ y.events) ∧ Underway p.before.scheduler change := by
  constructor
  · intro last earlier later p run hp
    exact ⟨Scheduler.paused_iff_of_pause run hp,
      fun taken handed => Scheduler.activated_of_handed run hp taken handed⟩
  · intro history m a hpolicy run ha hempty hattempt action m' events name order taken handed
    exact underway_of_handed hpolicy run ha hempty hattempt taken handed

def activeOnly : Monitor :=
  create { monitorId := "m", policy := some { active := { plan := "p" } } }
    (PlanStore.empty.add (.ofLevels "p" "inline" (.ofList [
      ("kpi", { freq := "1s", collect := .ofList [("cpu", {})] })]))) [] none 0 .epoch

/-- The instance is a standby before it answers the ping of the change that it led to as active. -/
def lateAnswer : List MonitorAction :=
  [.run, .scheduler (.startWorker .primary), .adjuster (.standby false),
    .adjuster (.readOnly .writable), .adjuster (.take 0 .epoch), .scheduler (.grant 0),
    .settle .epoch, .scheduler (.beginChange 1), .adjuster .wake, .adjuster (.standby true),
    .adjuster (.take 1000000000 .epoch), .settle .epoch,
    .scheduler (.engine (.pinged 0 .answered)), .scheduler (.engine (.copyLive 0)),
    .scheduler (.engine (.visit 0 .created false)),
    .scheduler (.engine (.collectorPrepared 0 (.prepared false))),
    .scheduler (.engine (.conclude 0)), .scheduler (.engine (.swap 0 .all)),
    .scheduler (.engine (.cleanUp 0 none)), .scheduler (.engine (.prune 0)),
    .scheduler (.reportChange 1), .scheduler (.endChange 1)]

def lateRun : History × Monitor := Run.follow step activeOnly lateAnswer

def nextOrder? (m : Monitor) : Option Order :=
  (m.step (.scheduler .tick)).bind (fun next =>
    match next.2 with
    | [.handed .primary order] => some order
    | _ => none)

/-- The instance is a standby, which has no plan, and the round of the plan for an active one is
handed out. -/
theorem handed_in_standby :
    Run step activeOnly lateRun.1 lateRun.2 ∧
      lateRun.2.adjuster.map (·.tracker.current.state) = some .standby ∧
      lateRun.2.adjuster.map (fun a => (a.policy.rule .standby).plan) = some "" ∧
      lateRun.2.attempt = none ∧
      lateRun.2.nextOrder? = some { tick := 1, level := "kpi", plan := "p", state := .active } := by
  exact ⟨Run.of_follow .., by decide +kernel, by decide +kernel, by decide +kernel, by decide +kernel⟩

/-- The same change, where it is its caller who makes collection stop. -/
def latePause : List Move :=
  [.act (.call (.change .active "p")), .act (.grant 0), .act (.beginChange 1), .act .pause,
    .act (.engine (.pinged 0 .answered)), .act (.engine (.copyLive 0)),
    .act (.engine (.visit 0 .created false)),
    .act (.engine (.collectorPrepared 0 (.prepared false))), .act (.engine (.conclude 0)),
    .act (.engine (.swap 0 .all)), .act (.engine (.cleanUp 0 none)), .act (.engine (.prune 0))]

theorem paused_until_activated_standby :
    (let run := Run.follow Scheduler.move activeOnly.scheduler latePause
      ∃ earlier p later change, run.1 = earlier ++ p :: later ∧ p.action = .act .pause ∧
        Scheduler.Activated (Scheduler.sincePause later) change ∧
        (Scheduler.Asked later change ∨ Scheduler.Outstanding p.after later change)) ∧
    ∃ earlier p later change, lateRun.1 = earlier ++ p :: later ∧ Pauses p ∧
      (∃ y ∈ later, .activated change ∈ y.events) ∧ Underway p.before.scheduler change := by
  constructor
  · intro run
    have hrun : Run Scheduler.move activeOnly.scheduler run.1 run.2 := Run.of_follow ..
    obtain ⟨p, hmem, hp⟩ : ∃ p ∈ run.1, p.action = .act .pause := by decide +kernel
    obtain ⟨earlier, later, hsplit⟩ := List.append_of_mem hmem
    rw [hsplit] at hrun
    obtain ⟨hpaused, -⟩ :=
      (paused_until_activated activeOnly.scheduler { monitorId := "m" } {} .empty [] none 0
        .epoch).1 hrun hp
    have hgoing : run.2.paused = false := by decide +kernel
    rw [hgoing] at hpaused
    simp only [Bool.false_eq_true, false_iff, not_forall, not_not] at hpaused
    obtain ⟨change, horigin, hactivated⟩ := hpaused
    exact ⟨earlier, p, later, change, hsplit, hp, hactivated, horigin⟩
  · have hrun : Run step activeOnly lateRun.1 lateRun.2 := Run.of_follow ..
    have hstate : lateRun.2.adjuster.map (·.tracker.current.state) = some .standby := by
      decide +kernel
    have hempty : lateRun.2.adjuster.map (fun a => (a.policy.rule .standby).plan) = some "" := by
      decide +kernel
    obtain ⟨a, ha, hstate⟩ := Option.map_eq_some_iff.1 hstate
    obtain ⟨b, hb, hempty⟩ := Option.map_eq_some_iff.1 hempty
    obtain rfl : a = b := Option.some.inj (ha.symm.trans hb)
    have horder : lateRun.2.nextOrder? =
        some { tick := 1, level := "kpi", plan := "p", state := .active } := by decide +kernel
    obtain ⟨⟨m', events⟩, htick, horder⟩ := Option.bind_eq_some_iff.1 horder
    have handed : .handed .primary { tick := 1, level := "kpi", plan := "p", state := .active } ∈
        events := by
      simp only at horder
      split at horder
      · cases horder
        simp
      · contradiction
    refine (paused_until_activated activeOnly.scheduler _ _ _ _ _ _ _).2 rfl hrun ha ?_
      (by decide +kernel) htick handed
    rw [hstate, hempty]

end Cadence.Monitor
