import Cadence.Adjuster.Step
import Cadence.Proofs.Run
import Cadence.Proofs.Scheduler.Actions

/-!
# What a move changes of the control

A move is an action of the scheduler, or a line that the adjuster puts on the
status board, which the two share.  What follows says how a pause, a change of
plan and a caller come and go in one move, and from that where those stem from
that a run has led to.
-/

namespace Cadence

inductive Move where
  | act (action : SchedulerAction)
  | post (line : String)
  deriving DecidableEq

deriving instance DecidableEq for SchedulerEvent

namespace PlanChange

/-- The later change is the same task, maybe further on. -/
structure Becomes (c later : PlanChange) : Prop where
  plan : later.plan = c.plan
  levels : later.levels = c.levels
  state : later.state = c.state
  ended : c.stage = .ended → later.stage = .ended

theorem Becomes.refl (c : PlanChange) : Becomes c c := ⟨rfl, rfl, rfl, id⟩

theorem Becomes.trans {a b c : PlanChange} (hab : Becomes a b) (hbc : Becomes b c) :
    Becomes a c where
  plan := hbc.plan.trans hab.plan
  levels := hbc.levels.trans hab.levels
  state := hbc.state.trans hab.state
  ended h := hbc.ended (hab.ended h)

end PlanChange

namespace Scheduler

def move (s : Scheduler) : Move → Option (Scheduler × List SchedulerEvent)
  | .act action => s.step action
  | .post line => some (s.setStatus Adjuster.statusKey line, [])

/-- All changes after a move, but for new ones, are what the changes before it have become. -/
def Carries (s s' : Scheduler) : Prop :=
  ∀ id later, s'.changes.get? id = some later → ∃ c, s.changes.get? id = some c ∧ c.Becomes later

theorem Carries.of_eq {s s' : Scheduler} (h : s'.changes = s.changes) : Carries s s' := by
  intro id later hlater
  exact ⟨later, h ▸ hlater, .refl later⟩

theorem Carries.trans {a b c : Scheduler} (hab : Carries a b) (hbc : Carries b c) :
    Carries a c := by
  intro id later hlater
  obtain ⟨mid, hmid, hlater⟩ := hbc id later hlater
  obtain ⟨first, hfirst, hmid⟩ := hab id mid hmid
  exact ⟨first, hfirst, hmid.trans hlater⟩

theorem Carries.of_insert {s s' : Scheduler} {id : Nat} {c later : PlanChange}
    (hc : s.changes.get? id = some c) (hbecomes : c.Becomes later)
    (h : s'.changes = s.changes.insert id later) : Carries s s' := by
  intro other found hfound
  rw [h, Table.get?_insert] at hfound
  split at hfound
  · next hid =>
      obtain rfl := Option.some.inj hfound
      exact ⟨c, hid ▸ hc, hbecomes⟩
  · exact ⟨found, hfound, .refl found⟩

structure Reacted (s s' : Scheduler) (events : List SchedulerEvent) : Prop where
  callers : s'.callers = s.callers
  lock : s'.lock = s.lock
  latest : s'.latest = s.latest
  nextId : s'.nextId = s.nextId
  paused : s'.paused = true ↔ s.paused = true ∧ ∀ change, .activated change ∉ events
  active : (∀ change, .activated change ∉ events) → s'.active = s.active
  carries : Carries s s'
  activated : ∀ change, .activated change ∈ events →
    ∃ c, s.changes.get? change = some c ∧ c.stage ≠ .ended

theorem Reacted.of_control_eq {s s' : Scheduler} {events : List SchedulerEvent}
    (h : s'.control = s.control) (hevents : ∀ change, .activated change ∉ events) :
    Reacted s s' events where
  callers := congrArg Control.callers h
  lock := congrArg Control.lock h
  latest := congrArg Control.latest h
  nextId := congrArg Control.nextId h
  paused := by
    have hpaused : s'.paused = s.paused := congrArg Control.paused h
    simp [hpaused, hevents]
  active _ := congrArg Control.active h
  carries := .of_eq (congrArg Control.changes h)
  activated change hchange := absurd hchange (hevents change)

/-- A change whose task is at work gets to another stage. -/
theorem Reacted.of_stage {s s' : Scheduler} {events : List SchedulerEvent} {id : Nat}
    {c : PlanChange} {stage : ChangeStage} (hc : s.changes.get? id = some c)
    (hopen : c.stage ≠ .ended)
    (hcontrol : s'.control = { s.control with
      changes := s.changes.insert id { c with stage }
      changing := s'.changing })
    (hevents : ∀ change, .activated change ∉ events) : Reacted s s' events where
  callers := congrArg Control.callers hcontrol
  lock := congrArg Control.lock hcontrol
  latest := congrArg Control.latest hcontrol
  nextId := congrArg Control.nextId hcontrol
  paused := by
    have hpaused : s'.paused = s.paused := congrArg Control.paused hcontrol
    simp [hpaused, hevents]
  active _ := congrArg Control.active hcontrol
  carries := by
    have hbecomes : c.Becomes { c with stage } := ⟨rfl, rfl, rfl, fun h => absurd h hopen⟩
    exact .of_insert hc hbecomes (congrArg Control.changes hcontrol)
  activated change hchange := absurd hchange (hevents change)

theorem reacted (s : Scheduler) (event : EngineEvent) :
    Reacted s (s.react event).1 (s.react event).2 := by
  obtain ⟨hcontrol, hevents⟩ | ⟨id, c, preparation, -, hchange, hreact⟩ |
    ⟨id, c, preparation, outcome, -, hchange, ⟨-, hreact⟩ | ⟨-, hreact⟩⟩ := s.react_cases event
  · exact .of_control_eq hcontrol (by simp [hevents])
  · obtain ⟨hget, hstage⟩ := changeOf?_eq_some hchange
    rw [hreact]
    refine ⟨rfl, rfl, rfl, rfl, by simp, fun hnone => ?_, .of_eq rfl, fun change hactivated => ?_⟩
    · exact absurd (List.mem_cons_of_mem _ (List.mem_singleton.2 rfl)) (hnone id)
    · obtain rfl : change = id := by simpa using hactivated
      exact ⟨c, hget, by simp [hstage]⟩
  · obtain ⟨hget, hstage⟩ := changeOf?_eq_some hchange
    rw [hreact]
    exact .of_stage hget (by simp [hstage]) rfl (by simp)
  · obtain ⟨hget, hstage⟩ := changeOf?_eq_some hchange
    rw [hreact]
    exact .of_stage hget (by simp [hstage]) rfl (by simp)

theorem Reacted.trans {a b c : Scheduler} {first more : List SchedulerEvent}
    (hab : Reacted a b first) (hbc : Reacted b c more) : Reacted a c (first ++ more) where
  callers := hbc.callers.trans hab.callers
  lock := hbc.lock.trans hab.lock
  latest := hbc.latest.trans hab.latest
  nextId := hbc.nextId.trans hab.nextId
  paused := by
    rw [hbc.paused, hab.paused]
    simp only [List.mem_append, not_or, forall_and, and_assoc]
  active hnone := by
    simp only [List.mem_append, not_or, forall_and] at hnone
    exact (hbc.active hnone.2).trans (hab.active hnone.1)
  carries := hab.carries.trans hbc.carries
  activated change hchange := by
    rcases List.mem_append.1 hchange with hchange | hchange
    · exact hab.activated change hchange
    · obtain ⟨later, hlater, hstage⟩ := hbc.activated change hchange
      obtain ⟨c, hc, hbecomes⟩ := hab.carries change later hlater
      exact ⟨c, hc, fun hended => hstage (hbecomes.ended hended)⟩

theorem reactedAll (s : Scheduler) (events : List EngineEvent) :
    Reacted s (s.reactAll events).1 (s.reactAll events).2 := by
  induction events generalizing s with
  | nil => exact .of_control_eq rfl (by simp [reactAll])
  | cons event rest ih => exact (s.reacted event).trans (ih _)

/-! ## One move -/

/-- A caller has its change accepted under the next number. -/
def Accepts (s : Scheduler) (action : Move) (caller : Nat) (later : PlanChange) : Prop :=
  (action = .act (.grant caller) ∨ action = .act (.resume caller)) ∧
    ∃ asking name, s.callers.get? caller = some asking ∧
      asking.request = .change later.state name ∧
      s.findSorted name = .ok (later.levels, later.plan) ∧ later.stage = .spawned

structure Moved (s s' : Scheduler) (action : Move) (events : List SchedulerEvent) : Prop where
  nextId : s.nextId ≤ s'.nextId
  paused : s'.paused = true ↔
    action = .act .pause ∨ s.paused = true ∧ ∀ change, .activated change ∉ events
  active : (∀ change, .activated change ∉ events) → s'.active = s.active
  changes : ∀ id later, s'.changes.get? id = some later →
    (∃ c, s.changes.get? id = some c ∧ c.Becomes later) ∨
      id = s.nextId ∧ ∃ caller, s.Accepts action caller later ∧ events = [.returned caller (.ok ())]
  callers : ∀ id later, s'.callers.get? id = some later →
    (∃ caller, s.callers.get? id = some caller ∧ caller.request = later.request) ∨
      id = s.nextId ∧ (action = .act (.call later.request) ∨ later.request = .shutdown)
  activated : ∀ change, .activated change ∈ events →
    ∃ c, s.changes.get? change = some c ∧ c.stage ≠ .ended
  returned : ∀ caller result, .returned caller result ∈ events → s'.callers.get? caller = none

section Moved

variable {s s' : Scheduler} {action : Move} {events : List SchedulerEvent}

theorem Moved.of_reacted (h : Reacted s s' events) (hpause : action ≠ .act .pause)
    (hreturned : ∀ caller result, .returned caller result ∉ events) : Moved s s' action events where
  nextId := Nat.le_of_eq h.nextId.symm
  paused := by simp [hpause, h.paused]
  active := h.active
  changes id later hlater := .inl (h.carries id later hlater)
  callers id later hlater := .inl ⟨later, h.callers ▸ hlater, rfl⟩
  activated := h.activated
  returned caller result h := absurd h (hreturned caller result)

theorem Moved.of_control_eq (h : s'.control = s.control) (hpause : action ≠ .act .pause)
    (hactivated : ∀ change, .activated change ∉ events)
    (hreturned : ∀ caller result, .returned caller result ∉ events) : Moved s s' action events where
  nextId := Nat.le_of_eq (congrArg Control.nextId h).symm
  paused := by
    have hpaused : s'.paused = s.paused := congrArg Control.paused h
    simp [hpause, hpaused, hactivated]
  active _ := congrArg Control.active h
  changes id later hlater := .inl (Carries.of_eq (congrArg Control.changes h) id later hlater)
  callers id later hlater := by
    have hcallers : s'.callers = s.callers := congrArg Control.callers h
    exact .inl ⟨later, hcallers ▸ hlater, rfl⟩
  activated change hchange := absurd hchange (hactivated change)
  returned caller result h := absurd h (hreturned caller result)

/-- A move says nothing of a scheduler but its control. -/
theorem Moved.congr {s'' : Scheduler} (h : Moved s s' action events)
    (hcontrol : s''.control = s'.control) : Moved s s'' action events := by
  have hnext : s''.nextId = s'.nextId := congrArg Control.nextId hcontrol
  have hpaused : s''.paused = s'.paused := congrArg Control.paused hcontrol
  have hactive : s''.active = s'.active := congrArg Control.active hcontrol
  have hchanges : s''.changes = s'.changes := congrArg Control.changes hcontrol
  have hcallers : s''.callers = s'.callers := congrArg Control.callers hcontrol
  obtain ⟨next, paused, active, changes, callers, activated, returned⟩ := h
  rw [← hnext] at next
  rw [← hpaused] at paused
  rw [← hactive] at active
  rw [← hchanges] at changes
  rw [← hcallers] at callers returned
  exact ⟨next, paused, active, changes, callers, activated, returned⟩

theorem Moved.of_release {caller : Nat} {latest : Option Nat} (hpause : action ≠ .act .pause)
    (hcontrol : s'.control = { (s.release caller).control with latest })
    (hactivated : ∀ change, .activated change ∉ events)
    (hreturned : ∀ other result, .returned other result ∈ events → other = caller) :
    Moved s s' action events where
  nextId := Nat.le_of_eq (congrArg Control.nextId hcontrol).symm
  paused := by
    have hpaused : s'.paused = s.paused := congrArg Control.paused hcontrol
    simp [hpause, hpaused, hactivated]
  active _ := congrArg Control.active hcontrol
  changes id later hlater := by
    have hchanges : s'.changes = s.changes := congrArg Control.changes hcontrol
    exact .inl (Carries.of_eq hchanges id later hlater)
  callers id later hlater := by
    have hcallers : s'.callers = s.callers.erase caller := congrArg Control.callers hcontrol
    exact .inl ⟨later, Table.get?_of_get?_erase (hcallers ▸ hlater), rfl⟩
  activated change hchange := absurd hchange (hactivated change)
  returned other result hother := by
    have hcallers : s'.callers = s.callers.erase caller := congrArg Control.callers hcontrol
    obtain rfl := hreturned other result hother
    rw [hcallers, Table.get?_erase, if_pos rfl]

theorem Moved.of_await {caller change : Nat} {asking : Caller} {changes : Table Nat PlanChange}
    {latest : Option Nat} (hcaller : s.callers.get? caller = some asking)
    (hpause : action ≠ .act .pause) (hcarries : Carries s s')
    (hcontrol : s'.control = { s.control with
      changes
      latest
      callers := s.callers.insert caller
        { request := asking.request, stage := .awaiting change } }) : Moved s s' action [] where
  nextId := Nat.le_of_eq (congrArg Control.nextId hcontrol).symm
  paused := by
    have hpaused : s'.paused = s.paused := congrArg Control.paused hcontrol
    simp [hpause, hpaused]
  active _ := congrArg Control.active hcontrol
  changes id later hlater := .inl (hcarries id later hlater)
  callers id later hlater := by
    have hcallers := congrArg Control.callers hcontrol
    change s'.callers = _ at hcallers
    rw [hcallers, Table.get?_insert] at hlater
    split at hlater
    · next hid =>
        obtain rfl := Option.some.inj hlater
        exact .inl ⟨asking, hid ▸ hcaller, rfl⟩
    · exact .inl ⟨later, hlater, rfl⟩
  activated change hchange := by simp at hchange
  returned caller result hreturned := by simp at hreturned

theorem Moved.of_accept {caller : Nat} {asking : Caller} {state : InstanceState} {name : String}
    {levels : List SortedLevel} {plan : Plan}
    (hact : action = .act (.grant caller) ∨ action = .act (.resume caller))
    (hcaller : s.callers.get? caller = some asking) (hrequest : asking.request = .change state name)
    (hfound : s.findSorted name = .ok (levels, plan)) :
    Moved s (s.accept caller state plan levels).1 action
      (s.accept caller state plan levels).2 where
  nextId := Nat.le_succ _
  paused := by
    have hpause : action ≠ .act .pause := by rcases hact with rfl | rfl <;> simp
    simp [hpause, accept, returns, release, setChange]
  active _ := rfl
  changes id later hlater := by
    change (s.changes.insert s.nextId { plan, levels, state }).get? id = some later at hlater
    rw [Table.get?_insert] at hlater
    split at hlater
    · next hid =>
        obtain rfl := Option.some.inj hlater
        exact .inr ⟨hid, caller, ⟨hact, asking, name, hcaller, hrequest, hfound, rfl⟩, rfl⟩
    · exact .inl ⟨later, hlater, .refl later⟩
  callers id later hlater := .inl ⟨later, Table.get?_of_get?_erase hlater, rfl⟩
  activated change hchange := by simp [accept, returns] at hchange
  returned other result hother := by
    obtain ⟨rfl, -⟩ : other = caller ∧ result = .ok () := by simpa [accept, returns] using hother
    change (s.callers.erase other).get? other = none
    rw [Table.get?_erase, if_pos rfl]

theorem Moved.of_call {request : ChangeRequest} (hpause : action ≠ .act .pause)
    (hrequest : action = .act (.call request) ∨ request = .shutdown)
    (hcontrol : s'.control = (s.call request).control) : Moved s s' action [] where
  nextId := Nat.le_of_lt (Nat.lt_of_succ_le (Nat.le_of_eq (congrArg Control.nextId hcontrol).symm))
  paused := by
    have hpaused : s'.paused = s.paused := congrArg Control.paused hcontrol
    simp [hpause, hpaused]
  active _ := congrArg Control.active hcontrol
  changes id later hlater := by
    have hchanges : s'.changes = s.changes := congrArg Control.changes hcontrol
    exact .inl (Carries.of_eq hchanges id later hlater)
  callers id later hlater := by
    have hcallers : s'.callers = s.callers.insert s.nextId { request } :=
      congrArg Control.callers hcontrol
    rw [hcallers, Table.get?_insert] at hlater
    split at hlater
    · next hid =>
        obtain rfl := Option.some.inj hlater
        exact .inr ⟨hid, hrequest⟩
    · exact .inl ⟨later, hlater, rfl⟩
  activated change hchange := by simp at hchange
  returned caller result hreturned := by simp at hreturned

theorem Moved.of_pause (hcontrol : s'.control = s.pause.control) :
    Moved s s' (.act .pause) [] where
  nextId := Nat.le_of_eq (congrArg Control.nextId hcontrol).symm
  paused := by
    have hpaused : s'.paused = true := congrArg Control.paused hcontrol
    simp [hpaused]
  active _ := congrArg Control.active hcontrol
  changes id later hlater := by
    have hchanges : s'.changes = s.changes := congrArg Control.changes hcontrol
    exact .inl (Carries.of_eq hchanges id later hlater)
  callers id later hlater := by
    have hcallers : s'.callers = s.callers := congrArg Control.callers hcontrol
    exact .inl ⟨later, hcallers ▸ hlater, rfl⟩
  activated change hchange := by simp at hchange
  returned caller result hreturned := by simp at hreturned

theorem Carries.of_takeOver (s : Scheduler) (change : Nat) : Carries s (s.takeOver change) := by
  have hchanges : (s.takeOver change).changes =
      s.changes.modify change (fun c => { c with cancelled := true }) :=
    congrArg Control.changes (s.control_takeOver change)
  intro id later hlater
  rw [hchanges, Table.get?_modify] at hlater
  split at hlater
  · next hid =>
      obtain ⟨c, hc, rfl⟩ := Option.map_eq_some_iff.1 hlater
      exact ⟨c, hid ▸ hc, rfl, rfl, rfl, fun hended => hended⟩
  · exact ⟨later, hlater, .refl later⟩

theorem moved_grant {caller : Nat} (h : s.grant caller = some (s', events)) :
    Moved s s' (.act (.grant caller)) events := by
  obtain ⟨-, request, hcaller, hcases⟩ := grant_eq_some h
  obtain ⟨state, name, e, -, -, hnext⟩ | ⟨state, name, levels, plan, hrequest, hfound, -, hnext⟩ |
    ⟨change, -, -, -, hnext⟩ | ⟨-, -, hnext⟩ | ⟨change, -, -, hnext⟩ | ⟨-, -, hnext⟩ := hcases
  · cases hnext
    exact .of_release (by simp) rfl (by simp) (by simp)
  · cases hnext
    exact .of_accept (.inl rfl) hcaller hrequest hfound
  · cases hnext
    have hcallers : (s.takeOver change).callers = s.callers :=
      congrArg Control.callers (s.control_takeOver change)
    have hcontrol := (s.takeOver change).control_await caller request change
    rw [control_takeOver, hcallers] at hcontrol
    exact .of_await hcaller (by simp) (Carries.of_takeOver s change) hcontrol
  · cases hnext
    exact .of_release (by simp) rfl (by simp) (by simp)
  · cases hnext
    exact .of_await hcaller (by simp) (.of_eq rfl) rfl
  · cases hnext
    exact .of_release (by simp) rfl (by simp) (by simp)

theorem moved_resume {caller : Nat} (h : s.resume caller = some (s', events)) :
    Moved s s' (.act (.resume caller)) events := by
  obtain ⟨request, change, hcaller, -, hcases⟩ := resume_eq_some h
  obtain ⟨state, name, e, -, -, hnext⟩ | ⟨state, name, levels, plan, hrequest, hfound, hnext⟩ |
    ⟨-, hnext⟩ | ⟨-, hnext⟩ := hcases
  · cases hnext
    exact .of_release (by simp) rfl (by simp) (by simp)
  · cases hnext
    exact .of_accept (.inr rfl) hcaller hrequest hfound
  · cases hnext
    exact .of_release (by simp) rfl (by simp) (by simp)
  · cases hnext
    exact .of_release (by simp) rfl (by simp) (by simp)

theorem moved_beginChange {change : Nat} (h : s.beginChange change = some (s', events)) :
    Moved s s' (.act (.beginChange change)) events := by
  obtain ⟨c, hc, hspawned, hnext⟩ := beginChange_eq_some h
  cases hnext
  exact .of_reacted (.of_stage hc (by simp [hspawned]) rfl (by simp)) (by simp) (by simp)

theorem moved_reportChange {change : Nat} (h : s.reportChange change = some (s', events)) :
    Moved s s' (.act (.reportChange change)) events := by
  obtain ⟨c, outcome, board, hc, hstage, hnext⟩ := reportChange_eq_some h
  cases hnext
  exact .of_reacted (.of_stage hc (by simp [hstage]) rfl (by simp)) (by simp) (by simp)

theorem moved_endChange {change : Nat} (h : s.endChange change = some (s', events)) :
    Moved s s' (.act (.endChange change)) events := by
  obtain ⟨c, outcome, hc, hstage, hnext⟩ := endChange_eq_some h
  cases hnext
  exact .of_reacted (.of_stage hc (by simp [hstage]) rfl (by simp)) (by simp) (by simp)

theorem moved_engine {inner : EngineAction} (h : s.engineStep inner = some (s', events)) :
    Moved s s' (.act (.engine inner)) events := by
  obtain ⟨-, engine, raised, -, hnext⟩ := engineStep_eq_some h
  have hreacted := reactedAll { s with engine } raised
  have hinner := isInner_of_reactAll (s := { s with engine }) raised
  rw [← hnext] at hreacted hinner
  refine .of_reacted { hreacted with } (by simp) fun caller result hreturned => ?_
  exact Bool.false_ne_true (hinner _ hreturned)

theorem moved (taken : s.move action = some (s', events)) : Moved s s' action events := by
  cases action with
  | post line =>
      cases taken
      exact .of_control_eq rfl (by simp) (by simp) (by simp)
  | act action =>
      cases hkind : action.isOfRun with
      | true =>
          obtain ⟨hcontrol, hevents⟩ := run_frame hkind taken
          refine .of_control_eq hcontrol ?_ (fun change hchange => ?_) fun caller result hreturned => ?_
          · rintro ⟨⟩
            contradiction
          · exact Bool.false_ne_true (hevents _ hchange)
          · exact Bool.false_ne_true (hevents _ hreturned)
      | false =>
          cases action with
          | engine inner => exact moved_engine taken
          | grant caller => exact moved_grant taken
          | resume caller => exact moved_resume taken
          | beginChange change => exact moved_beginChange taken
          | reportChange change => exact moved_reportChange taken
          | endChange change => exact moved_endChange taken
          | join =>
              obtain ⟨run, -, -, -, -, hnext⟩ := join_eq_some taken
              cases hnext
              exact .of_call (by simp) (.inr rfl) rfl
          | call request =>
              obtain ⟨-, ⟨⟩⟩ := call_eq_some taken
              exact .of_call (by simp) (.inl rfl) rfl
          | dropCaller caller =>
              obtain ⟨asking, -, -, hnext⟩ := dropCaller_eq_some taken
              cases hnext
              exact .of_release (by simp) rfl (by simp) (by simp)
          | pause =>
              cases taken
              exact .of_pause rfl
          | _ => contradiction

end Moved

end Scheduler

end Cadence
