import Cadence.Proofs.Engine.Signals
import Cadence.Proofs.Scheduler.Moves

/-!
# Callers and tasks

A move either serves somebody who asks for a change of plan, or it is a step of a
task: of a change, a round, a worker or the ticker.  Callers touch the queue for
the lock and hand changes over, tasks carry the changes out.  Each side is one
relation, with a case for everything that can come of a move.
-/

namespace Cadence

def SchedulerEvent.isOwn : SchedulerEvent → Bool
  | engine _ => false
  | _ => true

def Move.isWork : Move → Bool
  | act (.engine _) | post _ => true
  | act action => action.isOfRun

/-- What is scheduled once the change is live. -/
def PlanChange.scheduled (c : PlanChange) : Active where
  levels := c.levels
  state := some c.state
  plan := c.plan.name

/-- No preparation has anything to do with the difference. -/
structure Engine.Apart (e e' : Engine) : Prop where
  live : e'.live = e.live
  preparations : e'.preparations = e.preparations
  nextId : e.nextId ≤ e'.nextId

theorem Engine.Apart.refl (e : Engine) : e.Apart e := ⟨rfl, rfl, Nat.le_refl _⟩

namespace Scheduler

/-- The events of a move but for those of the engine. -/
def own (events : List SchedulerEvent) : List SchedulerEvent := events.filter (·.isOwn)

theorem mem_own {event : SchedulerEvent} {events : List SchedulerEvent}
    (h : event.isOwn = true) : event ∈ own events ↔ event ∈ events := by
  simp [own, h]

structure Fixed (s s' : Scheduler) : Prop where
  settings : s'.settings = s.settings
  store : s'.store = s.store
  sinks : s'.sinks = s.sinks

theorem Fixed.refl (s : Scheduler) : Fixed s s := ⟨rfl, rfl, rfl⟩

theorem Fixed.trans {a b c : Scheduler} (hab : Fixed a b) (hbc : Fixed b c) : Fixed a c :=
  ⟨hbc.settings.trans hab.settings, hbc.store.trans hab.store, hbc.sinks.trans hab.sinks⟩

/-- The engine stays as well, but for the board. -/
structure Keeps (s s' : Scheduler) : Prop extends Fixed s s' where
  engine : ∃ board, s'.engine = { s.engine with board }

theorem Keeps.refl (s : Scheduler) : Keeps s s := ⟨.refl s, _, rfl⟩

theorem Keeps.trans {a b c : Scheduler} (hab : Keeps a b) (hbc : Keeps b c) : Keeps a c := by
  refine ⟨hab.toFixed.trans hbc.toFixed, ?_⟩
  obtain ⟨board, hab⟩ := hab.engine
  obtain ⟨board', hbc⟩ := hbc.engine
  exact ⟨board', by rw [hbc, hab]⟩

/-- It is the turn of a caller with this request. -/
inductive Turn (s : Scheduler) (id : Nat) (request : ChangeRequest) : Move → Prop
  | first : s.lock.head? = some id → s.callers.get? id = some { request, stage := .queued } →
      Turn s id request (.act (.grant id))
  | again {change : Nat} : s.callers.get? id = some { request, stage := .awaiting change } →
      s.hasEnded change = true → Turn s id request (.act (.resume id))

/-- The preparations once the token of a change is cancelled. -/
def cancelledIn (s : Scheduler) (change : Nat) : Table Nat Preparation :=
  match s.changes.get? change with
  | some { stage := .applying preparation, .. } =>
      s.engine.preparations.modify preparation (fun p => { p with cancelled := true })
  | _ => s.engine.preparations

/-- What a move does for a caller. -/
inductive Serves (s s' : Scheduler) : Move → List SchedulerEvent → Prop
  | asks {action : Move} {request : ChangeRequest} :
      action = .act (.call request) ∨ action = .act .join ∧ request = .shutdown →
      s'.control = (s.call request).control → s.engine.Apart s'.engine → Serves s s' action []
  | refuses {action : Move} {id : Nat} {state : InstanceState} {name : String} {e : PlanError} :
      s.Turn id (.change state name) action → s.findSorted name = .error e →
      s'.control = (s.release id).control → s.engine.Apart s'.engine →
      Serves s s' action [.returned id (.error e)]
  | accepts {action : Move} {id : Nat} {state : InstanceState} {name : String}
      {levels : List SortedLevel} {plan : Plan} : s.Turn id (.change state name) action →
      (action = .act (.grant id) → s.latest = none) → s.findSorted name = .ok (levels, plan) →
      s'.control = (s.accept id state plan levels).1.control → s.engine.Apart s'.engine →
      Serves s s' action [.returned id (.ok ())]
  | awaits {id change : Nat} {request : ChangeRequest} : s.lock.head? = some id →
      s.callers.get? id = some { request, stage := .queued } → request ≠ .wait →
      (∀ state name, request = .change state name → ∃ found, s.findSorted name = .ok found) →
      s.latest = some change →
      s'.control = { s.control with
        changes := s.changes.modify change (fun c => { c with cancelled := true })
        latest := none
        callers := s.callers.insert id { request, stage := .awaiting change } } →
      s'.engine = { s.engine with preparations := s.cancelledIn change } →
      Serves s s' (.act (.grant id)) []
  | joins {id change : Nat} : s.lock.head? = some id →
      s.callers.get? id = some { request := .wait, stage := .queued } → s.latest = some change →
      s'.control = (s.await id .wait change).control → s.engine.Apart s'.engine →
      Serves s s' (.act (.grant id)) []
  | answers {action : Move} {id : Nat} : s.Turn id .wait action →
      (action = .act (.grant id) → s.latest = none) →
      s'.control = ({ s with latest := none }.release id).control → s.engine.Apart s'.engine →
      Serves s s' action [.returned id (.ok ())]
  | closes {action : Move} {id : Nat} : s.Turn id .shutdown action →
      (action = .act (.grant id) → s.latest = none) → s'.control = (s.release id).control →
      s.engine.Apart s'.engine → Serves s s' action []
  | drops {id : Nat} {asking : Caller} : s.callers.get? id = some asking →
      asking.request ≠ .shutdown → s'.control = (s.release id).control →
      s.engine.Apart s'.engine → Serves s s' (.act (.dropCaller id)) []

/-- What a move does that serves no caller. -/
inductive Proceeds (s s' : Scheduler) : Move → List SchedulerEvent → Prop
  | works {action : Move} {own : List SchedulerEvent} : action.isWork = true →
      s'.control = s.control → s.engine.Apart s'.engine → (∀ e ∈ own, e.isOfRun = true) →
      Proceeds s s' action own
  | pauses : s'.control = { s.control with paused := true } → s.engine.Apart s'.engine →
      Proceeds s s' (.act .pause) []
  | begins {change : Nat} {c : PlanChange} : s.changes.get? change = some c → c.stage = .spawned →
      s'.control = { s.control with
        changes := s.changes.insert change { c with stage := .applying s.engine.nextId } } →
      s'.engine.live = s.engine.live → s'.engine.nextId = s.engine.nextId + 1 →
      s'.engine.preparations = s.engine.preparations.insert s.engine.nextId
        { plan := c.plan, cancelled := c.cancelled } →
      Proceeds s s' (.act (.beginChange change)) []
  | goesOn {inner : EngineAction} {id : Nat} {p p' : Preparation} : s'.control = s.control →
      s.engine.Steady s'.engine → s.engine.preparations.get? id = some p →
      s'.engine.preparations = s.engine.preparations.insert id p' → p'.plan = p.plan →
      p'.cancelled = p.cancelled → p.stage.isConcluded = false →
      (p'.stage.isConcluded = true → p.cancelled = false ∧ p'.stage = .swapping) →
      Proceeds s s' (.act (.engine inner)) []
  | swaps {inner : EngineAction} {id : Nat} {p : Preparation} : s'.control = s.control →
      { s.engine with live := .ofPlan p.plan p.collectors p.cleanups }.Steady s'.engine →
      s.engine.preparations.get? id = some p → p.stage = .swapping →
      s'.engine.preparations = s.engine.preparations.insert id
        { p with stage := .swapped s.engine.live.cleanups } →
      Proceeds s s' (.act (.engine inner)) []
  | goesLive {inner : EngineAction} {id change : Nat} {p : Preparation} {cleanups : List Cleanup}
      {c : PlanChange} : s.engine.Steady s'.engine → s.engine.preparations.get? id = some p →
      p.stage = .swapped cleanups →
      s'.engine.preparations = s.engine.preparations.insert id { p with stage := .pruning } →
      s.changes.get? change = some c → c.stage = .applying id →
      s'.control = { s.control with active := c.scheduled, paused := false } →
      Proceeds s s' (.act (.engine inner)) [.activated change]
  | breaksOff {inner : EngineAction} {id change : Nat} {p : Preparation} {cleanups : List Cleanup}
      {c : PlanChange} : s.engine.Steady s'.engine → s.engine.preparations.get? id = some p →
      p.stage = .swapped cleanups → s'.engine.preparations = s.engine.preparations.erase id →
      s.changes.get? change = some c → c.stage = .applying id →
      s'.control = { s.control with
        active := c.scheduled
        paused := false
        changes := s.changes.insert change { c with stage := .ended } } →
      Proceeds s s' (.act (.engine inner)) [.activated change, .changeEnded change .panicked]
  | panics {inner : EngineAction} {id change : Nat} {p : Preparation} {c : PlanChange} :
      s.engine.Steady s'.engine → s.engine.preparations.get? id = some p →
      Engine.Ends p inner .panicked → s'.engine.preparations = s.engine.preparations.erase id →
      s.changes.get? change = some c → c.stage = .applying id →
      s'.control = { s.control with
        changes := s.changes.insert change { c with stage := .ended } } →
      Proceeds s s' (.act (.engine inner)) [.changeEnded change .panicked]
  | concludes {inner : EngineAction} {id change : Nat} {p : Preparation} {outcome : PrepareOutcome}
      {c : PlanChange} : s.engine.Steady s'.engine → s.engine.preparations.get? id = some p →
      Engine.Ends p inner outcome → outcome ≠ .panicked →
      s'.engine.preparations = s.engine.preparations.erase id →
      s.changes.get? change = some c → c.stage = .applying id →
      s'.control = { s.control with
        changes := s.changes.insert change { c with stage := .finishing outcome false } } →
      Proceeds s s' (.act (.engine inner)) []
  | reports {change : Nat} {outcome : PrepareOutcome} {c : PlanChange} :
      s.changes.get? change = some c → c.stage = .finishing outcome false →
      s'.control = { s.control with
        changes := s.changes.insert change { c with stage := .finishing outcome true } } →
      s.engine.Apart s'.engine → Proceeds s s' (.act (.reportChange change)) []
  | ends {change : Nat} {outcome : PrepareOutcome} {c : PlanChange} :
      s.changes.get? change = some c → c.stage = .finishing outcome true → outcome ≠ .panicked →
      s'.control = { s.control with
        changes := s.changes.insert change { c with stage := .ended }
        changing := false } →
      s.engine.Apart s'.engine → Proceeds s s' (.act (.endChange change)) [.changeEnded change outcome]

/-- Changes and preparations belong together in pairs. -/
structure Linked (s : Scheduler) : Prop where
  changes : ∀ id c, s.changes.get? id = some c → id < s.nextId
  preparations : ∀ id p, s.engine.preparations.get? id = some p → id < s.engine.nextId
  applying : ∀ id c preparation, s.changes.get? id = some c → c.stage = .applying preparation →
    ∃ p, s.engine.preparations.get? preparation = some p ∧ p.plan = c.plan ∧
      p.cancelled = c.cancelled
  owned : ∀ preparation p, s.engine.preparations.get? preparation = some p →
    ∃ id c, s.changes.get? id = some c ∧ c.stage = .applying preparation
  distinct : ∀ id id' c c' preparation, s.changes.get? id = some c →
    s.changes.get? id' = some c' → c.stage = .applying preparation →
    c'.stage = .applying preparation → id = id'
  /-- No task goes on after a panic, and only what has been cancelled ends as such. -/
  finishing : ∀ id c outcome told, s.changes.get? id = some c →
    c.stage = .finishing outcome told →
    outcome ≠ .panicked ∧ (outcome = .cancelled → c.cancelled = true)

variable {s s' : Scheduler} {id : Nat} {action : Move} {events : List SchedulerEvent}

/-! ## Callers -/

theorem Turn.caller {request : ChangeRequest} (turn : s.Turn id request action) :
    ∃ stage, s.callers.get? id = some { request, stage } := by
  cases turn with
  | first _ hcaller => exact ⟨_, hcaller⟩
  | again hcaller => exact ⟨_, hcaller⟩

theorem engine_takeOver (change : Nat) :
    (s.takeOver change).engine = { s.engine with preparations := s.cancelledIn change } := by
  unfold takeOver cancelChange cancelledIn
  simp only [Table.getElem?_eq_get?]
  cases s.changes.get? change with
  | none => rfl
  | some c =>
      obtain ⟨plan, levels, state, cancelled, stage⟩ := c
      cases stage with
      | spawned => rfl
      | ended => rfl
      | finishing => rfl
      | applying preparation =>
          simp only [setChange, Engine.cancelPreparation, Engine.withPreparation,
            Table.getElem?_eq_get?, Table.modify]
          cases s.engine.preparations.get? preparation with
          | none => rfl
          | some p => rfl

theorem serves_grant (h : s.grant id = some (s', events)) :
    Serves s s' (.act (.grant id)) (own events) := by
  obtain ⟨hturn, request, hcaller, hcases⟩ := grant_eq_some h
  obtain ⟨state, name, e, rfl, hfound, hnext⟩ | ⟨state, name, levels, plan, rfl, hfound, hlatest,
    hnext⟩ | ⟨change, hrequest, hlatest, hfound, hnext⟩ | ⟨rfl, hlatest, hnext⟩ |
    ⟨change, rfl, hlatest, hnext⟩ | ⟨rfl, hlatest, hnext⟩ := hcases
  · cases hnext
    exact .refuses (.first hturn hcaller) hfound rfl (.refl _)
  · cases hnext
    exact .accepts (.first hturn hcaller) (fun _ => hlatest) hfound rfl (.refl _)
  · cases hnext
    refine .awaits hturn hcaller hrequest hfound hlatest ?_ (engine_takeOver change)
    have hcallers : (s.takeOver change).callers = s.callers :=
      congrArg Control.callers (s.control_takeOver change)
    rw [control_await, control_takeOver, hcallers]
  · cases hnext
    refine .answers (.first hturn hcaller) (fun _ => hlatest) ?_ (.refl _)
    simp [control, release, hlatest]
  · cases hnext
    exact .joins hturn hcaller hlatest rfl (.refl _)
  · cases hnext
    exact .closes (.first hturn hcaller) (fun _ => hlatest) rfl (.refl _)

theorem serves_resume (h : s.resume id = some (s', events)) :
    Serves s s' (.act (.resume id)) (own events) := by
  obtain ⟨request, change, hcaller, hended, hcases⟩ := resume_eq_some h
  obtain ⟨state, name, e, rfl, hfound, hnext⟩ | ⟨state, name, levels, plan, rfl, hfound, hnext⟩ |
    ⟨rfl, hnext⟩ | ⟨rfl, hnext⟩ := hcases
  · cases hnext
    exact .refuses (.again hcaller hended) hfound rfl (.refl _)
  · cases hnext
    exact .accepts (.again hcaller hended) (by simp) hfound rfl (.refl _)
  · cases hnext
    exact .answers (.again hcaller hended) (by simp) rfl (.refl _)
  · cases hnext
    exact .closes (.again hcaller hended) (by simp) rfl (.refl _)

/-! ## Tasks -/

theorem Linked.changeOf? {preparation : Nat} {c : PlanChange} (h : s.Linked)
    (hc : s.changes.get? id = some c) (hstage : c.stage = .applying preparation) :
    s.changeOf? preparation = some (id, c) := by
  cases hfound : s.changeOf? preparation with
  | none =>
      have hnone := List.find?_eq_none.1 hfound (id, c) (Table.get?_eq_some_iff.1 hc)
      simp [hstage] at hnone
  | some found =>
      obtain ⟨hget, hfoundStage⟩ := changeOf?_eq_some hfound
      obtain rfl := h.distinct _ _ _ _ preparation hc hget hstage hfoundStage
      rw [hc] at hget
      obtain rfl := Option.some.inj hget
      rfl

theorem keeps_send (run : SchedulerRun) (name : WorkerName) (w : Worker) (order : Order)
    (batch : Batch) (sinks : List String) : Keeps s (s.send run name w order batch sinks) := by
  unfold send
  split <;> exact ⟨⟨rfl, rfl, rfl⟩, _, rfl⟩

theorem keeps_handBatch {run : SchedulerRun} {name : WorkerName} {round : Nat} {batch : Batch}
    (h : s.handBatch run name round batch = some s') : Keeps s s' := by
  unfold handBatch at h
  simp only at h
  split at h
  · split at h
    · obtain rfl := Option.some.inj h
      exact keeps_send ..
    · contradiction
  · contradiction

theorem keeps_react (event : EngineEvent) : Keeps s (s.react event).1 := by
  cases event with
  | after preparation =>
      simp only [react, activate]
      split <;> exact ⟨⟨rfl, rfl, rfl⟩, _, rfl⟩
  | prepared preparation outcome =>
      simp only [react, preparationEnded]
      split
      · exact .refl s
      · split <;> exact ⟨⟨rfl, rfl, rfl⟩, _, rfl⟩
  | collected round batch =>
      simp only [react, roundEnded]
      split
      · exact .refl s
      · next run _ =>
          cases hprimary : s.handBatch run .primary round batch with
          | some s' => exact keeps_handBatch hprimary
          | none =>
              cases hsecondary : s.handBatch run .secondary round batch with
              | some s' => exact keeps_handBatch hsecondary
              | none => exact .refl s
  | _ => exact .refl s

theorem react_of_not_signal {event : EngineEvent} (h : event.isSignal = false) :
    s.react event = (s, [.engine event]) := by
  cases event with
  | creating | preparing | committing | cleaning => rfl
  | _ => contradiction

theorem reactAll_signals (raised : List EngineEvent) :
    (s.reactAll raised).1 = (s.reactAll (Engine.signals raised)).1 ∧
      own (s.reactAll raised).2 = own (s.reactAll (Engine.signals raised)).2 := by
  induction raised generalizing s with
  | nil => exact ⟨rfl, rfl⟩
  | cons event rest ih =>
      cases hsignal : event.isSignal with
      | true =>
          have hsignals : Engine.signals (event :: rest) = event :: Engine.signals rest :=
            List.filter_cons_of_pos hsignal
          rw [hsignals]
          simp only [reactAll, own, List.filter_append]
          have hrest := ih (s := (s.react event).1)
          simp only [own] at hrest
          rw [hrest.1, hrest.2]
          simp
      | false =>
          have hsignals : Engine.signals (event :: rest) = Engine.signals rest :=
            List.filter_cons_of_neg (by simp [hsignal])
          simp only [hsignals, reactAll, react_of_not_signal hsignal]
          exact ih

theorem keeps_reactAll (raised : List EngineEvent) : Keeps s (s.reactAll raised).1 := by
  induction raised generalizing s with
  | nil => exact .refl s
  | cons event rest ih => exact (s.keeps_react event).trans ih

theorem Linked.owner {preparation : Nat} {p : Preparation} (h : s.Linked)
    (hp : s.engine.preparations.get? preparation = some p) :
    ∃ id c, s.changes.get? id = some c ∧ c.stage = .applying preparation ∧
      s.changeOf? preparation = some (id, c) := by
  obtain ⟨id, c, hc, hstage⟩ := h.owned preparation p hp
  exact ⟨id, c, hc, hstage, h.changeOf? hc hstage⟩

theorem proceeds_round {inner : EngineAction} {engine : Engine} {raised : List EngineEvent}
    (hinner : inner.isInner = true) (hkind : inner.isOfRound = true)
    (hstep : s.engine.step inner = some (engine, raised)) :
    Proceeds s ({ s with engine }.reactAll (Engine.signals raised)).1 (.act (.engine inner))
      (own ({ s with engine }.reactAll (Engine.signals raised)).2) := by
  obtain ⟨hlive, hpreparations, -⟩ := Engine.round_frame hkind hstep
  have hnextId := Engine.nextId_le_of_step hstep
  obtain ⟨-, board, hboard⟩ := keeps_reactAll (s := { s with engine }) (Engine.signals raised)
  have hapart : s.engine.Apart ({ s with engine }.reactAll (Engine.signals raised)).1.engine := by
    rw [hboard]
    exact ⟨hlive, hpreparations, hnextId⟩
  have hcollects := Engine.collects_of_step hkind hstep
  generalize Engine.signals raised = signals at hcollects hapart ⊢
  cases hcollects with
  | begins => contradiction
  | dropped => contradiction
  | goesOn => exact .works rfl rfl hapart (by simp [reactAll, own])
  | collects =>
      refine .works rfl ?_ hapart ?_
      · exact control_roundEnded ..
      · simp [reactAll, react, own, SchedulerEvent.isOwn]

theorem proceeds_preparation {inner : EngineAction} {engine : Engine} {raised : List EngineEvent}
    (h : s.Linked) (hinner : inner.isInner = true) (hkind : inner.isOfRound = false)
    (hstep : s.engine.step inner = some (engine, raised)) :
    Proceeds s ({ s with engine }.reactAll (Engine.signals raised)).1 (.act (.engine inner))
      (own ({ s with engine }.reactAll (Engine.signals raised)).2) := by
  have hprepares := Engine.prepares_of_step hkind hstep
  generalize Engine.signals raised = signals at hprepares ⊢
  cases hprepares with
  | begins => contradiction
  | cancels => contradiction
  | dropped => contradiction
  | goesOn hsteady hp hnext hplan hcancelled hopen hopen' =>
      exact .goesOn rfl hsteady hp hnext hplan hcancelled hopen (by simp [hopen'])
  | concludes hsteady hp hstage hcancelled hnext =>
      exact .goesOn rfl hsteady hp hnext rfl rfl (by rw [hstage]; rfl) fun _ => ⟨hcancelled, rfl⟩
  | swaps hsteady hp hstage hnext => exact .swaps rfl hsteady hp hstage hnext
  | goesLive hsteady hp hstage hnext =>
      obtain ⟨k, c, hc, happlying, hfound⟩ := h.owner hp
      have hchange : { s with engine }.changeOf? _ = some (k, c) := hfound
      simp only [reactAll, react, activate, hchange]
      exact .goesLive hsteady hp hstage hnext hc happlying rfl
  | breaksOff hsteady hp hstage hnext =>
      obtain ⟨k, c, hc, happlying, hfound⟩ := h.owner hp
      have hchange : { s with engine }.changeOf? _ = some (k, c) := hfound
      have hagain : { s with engine, active := c.scheduled, paused := false }.changeOf? _ =
          some (k, c) := hfound
      simp only [PlanChange.scheduled] at hagain
      simp only [reactAll, react, activate, hchange, preparationEnded, hagain]
      exact .breaksOff hsteady hp hstage hnext hc happlying rfl
  | ends hsteady hp hends _ hnext =>
      obtain ⟨k, c, hc, happlying, hfound⟩ := h.owner hp
      have hchange : { s with engine }.changeOf? _ = some (k, c) := hfound
      simp only [reactAll, react, preparationEnded, hchange]
      split
      · next hpanicked =>
          subst hpanicked
          exact .panics hsteady hp hends hnext hc happlying rfl
      · next hother => exact .concludes hsteady hp hends hother hnext hc happlying rfl

theorem proceeds_engine {inner : EngineAction} (h : s.Linked)
    (taken : s.engineStep inner = some (s', events)) :
    Proceeds s s' (.act (.engine inner)) (own events) := by
  obtain ⟨hinner, engine, raised, hstep, hnext⟩ := engineStep_eq_some taken
  obtain ⟨hstate, hown⟩ := reactAll_signals (s := { s with engine }) raised
  rw [← hnext] at hstate hown
  simp only at hstate hown
  rw [hstate, hown]
  cases hkind : inner.isOfRound with
  | true => exact proceeds_round hinner hkind hstep
  | false => exact proceeds_preparation h hinner hkind hstep

theorem apart_of_run {action : SchedulerAction} (hkind : action.isOfRun = true)
    (taken : s.step action = some (s', events)) : s.engine.Apart s'.engine := by
  have same : ∀ {s' : Scheduler}, (∃ board, s'.engine = { s.engine with board }) →
      s.engine.Apart s'.engine := by
    rintro s' ⟨board, hboard⟩
    rw [hboard]
    exact ⟨rfl, rfl, Nat.le_refl _⟩
  cases action with
  | startRun =>
      obtain ⟨-, ⟨⟩⟩ := startRun_eq_some taken
      exact .refl _
  | requestStop =>
      obtain ⟨run, -, ⟨⟩⟩ := requestStop_eq_some taken
      exact .refl _
  | tick =>
      obtain ⟨run, -, -, ⟨-, ⟨⟩⟩ | ⟨order, -, ⟨run', name, -, ⟨⟩⟩ | ⟨run', -, ⟨⟩⟩⟩⟩ :=
        tick_eq_some taken <;> exact .refl _
  | stopTicking =>
      obtain ⟨run, -, -, -, ⟨⟩⟩ := stopTicking_eq_some taken
      exact .refl _
  | startWorker name =>
      obtain ⟨run, -, -, ⟨⟩⟩ := startWorker_eq_some taken
      exact same ⟨_, rfl⟩
  | takeOrder name =>
      obtain ⟨run, order, -, -, -, ⟨⟩⟩ := takeOrder_eq_some taken
      exact ⟨rfl, rfl, Nat.le_succ _⟩
  | delivered name =>
      obtain ⟨run, order, batch, sink, sinks, -, -, ⟨⟩⟩ := delivered_eq_some taken
      exact same (keeps_send ..).engine
  | stopWorker name =>
      obtain ⟨run, -, -, -, -, ⟨⟩⟩ := stopWorker_eq_some taken
      rw [leaving]
      split <;> exact ⟨rfl, rfl, Nat.le_refl _⟩
  | finishRun =>
      obtain ⟨run, -, -, ⟨⟩⟩ := finishRun_eq_some taken
      exact same ⟨_, rfl⟩
  | _ => contradiction

theorem serves_or_proceeds (h : s.Linked) (taken : s.move action = some (s', events)) :
    Serves s s' action (own events) ∨ Proceeds s s' action (own events) := by
  cases action with
  | post line =>
      cases taken
      exact .inr (.works rfl rfl ⟨rfl, rfl, Nat.le_refl _⟩ (by simp [own]))
  | act action =>
      cases hkind : action.isOfRun with
      | true =>
          obtain ⟨hcontrol, hevents⟩ := run_frame hkind taken
          refine .inr (.works ?_ hcontrol (apart_of_run hkind taken) ?_)
          · cases action <;> first | rfl | contradiction
          · exact fun e he => hevents e (List.mem_filter.1 he).1
      | false =>
          cases action with
          | engine inner => exact .inr (proceeds_engine h taken)
          | grant caller => exact .inl (serves_grant taken)
          | resume caller => exact .inl (serves_resume taken)
          | beginChange change =>
              obtain ⟨c, hc, hspawned, ⟨⟩⟩ := beginChange_eq_some taken
              exact .inr (.begins hc hspawned rfl rfl rfl rfl)
          | reportChange change =>
              obtain ⟨c, outcome, board, hc, hstage, ⟨⟩⟩ := reportChange_eq_some taken
              exact .inr (.reports hc hstage rfl ⟨rfl, rfl, Nat.le_refl _⟩)
          | endChange change =>
              obtain ⟨c, outcome, hc, hstage, ⟨⟩⟩ := endChange_eq_some taken
              exact .inr (.ends hc hstage (h.finishing _ _ _ _ hc hstage).1 rfl (.refl _))
          | join =>
              obtain ⟨run, -, -, -, -, ⟨⟩⟩ := join_eq_some taken
              exact .inl (.asks (.inr ⟨rfl, rfl⟩) rfl (.refl _))
          | call request =>
              obtain ⟨-, ⟨⟩⟩ := call_eq_some taken
              exact .inl (.asks (.inl rfl) rfl (.refl _))
          | dropCaller caller =>
              obtain ⟨asking, hcaller, hrequest, ⟨⟩⟩ := dropCaller_eq_some taken
              exact .inl (.drops hcaller hrequest rfl (.refl _))
          | pause =>
              cases taken
              exact .inr (.pauses rfl ⟨rfl, rfl, Nat.le_refl _⟩)
          | _ => contradiction

/-! ## What no move changes -/

/-- Tasks leave callers and their queue alone. -/
theorem Proceeds.frame {own : List SchedulerEvent} (proceeds : Proceeds s s' action own) :
    s'.callers = s.callers ∧ s'.lock = s.lock ∧ s'.latest = s.latest ∧ s'.nextId = s.nextId := by
  have frame : ∀ control : Control, s'.control = control → control.callers = s.callers →
      control.lock = s.lock → control.latest = s.latest → control.nextId = s.nextId →
      s'.callers = s.callers ∧ s'.lock = s.lock ∧ s'.latest = s.latest ∧
        s'.nextId = s.nextId := by
    rintro control rfl hcallers hlock hlatest hnextId
    exact ⟨hcallers, hlock, hlatest, hnextId⟩
  cases proceeds with
  | works _ hcontrol => exact frame _ hcontrol rfl rfl rfl rfl
  | pauses hcontrol => exact frame _ hcontrol rfl rfl rfl rfl
  | begins _ _ hcontrol => exact frame _ hcontrol rfl rfl rfl rfl
  | goesOn hcontrol => exact frame _ hcontrol rfl rfl rfl rfl
  | swaps hcontrol => exact frame _ hcontrol rfl rfl rfl rfl
  | goesLive _ _ _ _ _ _ hcontrol => exact frame _ hcontrol rfl rfl rfl rfl
  | breaksOff _ _ _ _ _ _ hcontrol => exact frame _ hcontrol rfl rfl rfl rfl
  | panics _ _ _ _ _ _ hcontrol => exact frame _ hcontrol rfl rfl rfl rfl
  | concludes _ _ _ _ _ _ _ hcontrol => exact frame _ hcontrol rfl rfl rfl rfl
  | reports _ _ hcontrol => exact frame _ hcontrol rfl rfl rfl rfl
  | ends _ _ _ hcontrol => exact frame _ hcontrol rfl rfl rfl rfl

theorem fixed_takeOver (change : Nat) : Fixed s (s.takeOver change) := by
  unfold takeOver cancelChange
  simp only
  split
  · exact ⟨rfl, rfl, rfl⟩
  · split
    · split <;> exact ⟨rfl, rfl, rfl⟩
    · exact ⟨rfl, rfl, rfl⟩

theorem fixed_of_run {action : SchedulerAction} (hkind : action.isOfRun = true)
    (taken : s.step action = some (s', events)) : Fixed s s' := by
  cases action with
  | startRun =>
      obtain ⟨-, ⟨⟩⟩ := startRun_eq_some taken
      exact ⟨rfl, rfl, rfl⟩
  | requestStop =>
      obtain ⟨run, -, ⟨⟩⟩ := requestStop_eq_some taken
      exact ⟨rfl, rfl, rfl⟩
  | tick =>
      obtain ⟨run, -, -, ⟨-, ⟨⟩⟩ | ⟨order, -, ⟨run', name, -, ⟨⟩⟩ | ⟨run', -, ⟨⟩⟩⟩⟩ :=
        tick_eq_some taken <;> exact ⟨rfl, rfl, rfl⟩
  | stopTicking =>
      obtain ⟨run, -, -, -, ⟨⟩⟩ := stopTicking_eq_some taken
      exact ⟨rfl, rfl, rfl⟩
  | startWorker name =>
      obtain ⟨run, -, -, ⟨⟩⟩ := startWorker_eq_some taken
      exact ⟨rfl, rfl, rfl⟩
  | takeOrder name =>
      obtain ⟨run, order, -, -, -, ⟨⟩⟩ := takeOrder_eq_some taken
      exact ⟨rfl, rfl, rfl⟩
  | delivered name =>
      obtain ⟨run, order, batch, sink, sinks, -, -, ⟨⟩⟩ := delivered_eq_some taken
      exact (keeps_send ..).toFixed
  | stopWorker name =>
      obtain ⟨run, -, -, -, -, ⟨⟩⟩ := stopWorker_eq_some taken
      rw [leaving]
      split <;> exact ⟨rfl, rfl, rfl⟩
  | finishRun =>
      obtain ⟨run, -, -, ⟨⟩⟩ := finishRun_eq_some taken
      exact ⟨rfl, rfl, rfl⟩
  | _ => contradiction

theorem fixed_grant (h : s.grant id = some (s', events)) : Fixed s s' := by
  obtain ⟨-, request, -, hcases⟩ := grant_eq_some h
  obtain ⟨_, _, _, -, -, ⟨⟩⟩ | ⟨_, _, _, _, -, -, -, ⟨⟩⟩ | ⟨change, -, -, -, ⟨⟩⟩ | ⟨-, -, ⟨⟩⟩ |
    ⟨_, -, -, ⟨⟩⟩ | ⟨-, -, ⟨⟩⟩ := hcases
  · exact ⟨rfl, rfl, rfl⟩
  · exact ⟨rfl, rfl, rfl⟩
  · have hfixed := s.fixed_takeOver change
    exact ⟨hfixed.settings, hfixed.store, hfixed.sinks⟩
  · exact ⟨rfl, rfl, rfl⟩
  · exact ⟨rfl, rfl, rfl⟩
  · exact ⟨rfl, rfl, rfl⟩

theorem fixed_of_move (taken : s.move action = some (s', events)) : Fixed s s' := by
  cases action with
  | post line =>
      cases taken
      exact ⟨rfl, rfl, rfl⟩
  | act action =>
      cases hkind : action.isOfRun with
      | true => exact fixed_of_run hkind taken
      | false =>
          cases action with
          | engine inner =>
              obtain ⟨-, engine, raised, -, hnext⟩ := engineStep_eq_some taken
              have hfixed := (keeps_reactAll (s := { s with engine }) raised).toFixed
              rw [← hnext] at hfixed
              exact ⟨hfixed.settings, hfixed.store, hfixed.sinks⟩
          | grant caller => exact fixed_grant taken
          | resume caller =>
              obtain ⟨request, change, -, -, hcases⟩ := resume_eq_some taken
              obtain ⟨_, _, _, -, -, ⟨⟩⟩ | ⟨_, _, _, _, -, -, ⟨⟩⟩ | ⟨-, ⟨⟩⟩ | ⟨-, ⟨⟩⟩ := hcases <;>
                exact ⟨rfl, rfl, rfl⟩
          | beginChange change =>
              obtain ⟨c, -, -, ⟨⟩⟩ := beginChange_eq_some taken
              exact ⟨rfl, rfl, rfl⟩
          | reportChange change =>
              obtain ⟨c, outcome, board, -, -, ⟨⟩⟩ := reportChange_eq_some taken
              exact ⟨rfl, rfl, rfl⟩
          | endChange change =>
              obtain ⟨c, outcome, -, -, ⟨⟩⟩ := endChange_eq_some taken
              exact ⟨rfl, rfl, rfl⟩
          | join =>
              obtain ⟨run, -, -, -, -, ⟨⟩⟩ := join_eq_some taken
              exact ⟨rfl, rfl, rfl⟩
          | call request =>
              obtain ⟨-, ⟨⟩⟩ := call_eq_some taken
              exact ⟨rfl, rfl, rfl⟩
          | dropCaller caller =>
              obtain ⟨asking, -, -, ⟨⟩⟩ := dropCaller_eq_some taken
              exact ⟨rfl, rfl, rfl⟩
          | pause =>
              cases taken
              exact ⟨rfl, rfl, rfl⟩
          | _ => contradiction

end Scheduler

end Cadence
