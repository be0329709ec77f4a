import Cadence.Proofs.Monitor.Moves
import Cadence.Proofs.Plan.Names
import Cadence.Proofs.Scheduler.Resuming

/-!
# The plan that the adjuster takes for the one in force

The adjuster takes a plan up as soon as the change to it has been accepted, and
that is before anything has been prepared.  What it says is in force is so once
the change has been activated.  If the change fails later on, the plan from before
stays in force, or none, and the adjuster does not learn of it.
-/

namespace Cadence.Monitor

open Scheduler (Accepts Acceptance acceptance? accepted moved)

/-- The last change that was accepted is the one attempted, and nothing has been paused since. -/
def Follows (moves : Scheduler.History) (x : Attempt) : Prop :=
  ∃ earlier z later b, moves = earlier ++ z :: later ∧ acceptance? z = some b ∧
    accepted later = [] ∧ (∀ w ∈ later, w.action ≠ .act .pause) ∧ b.state = x.state ∧
    z.before.findSorted x.plan = .ok (b.levels, b.plan)

theorem Follows.append {moves part : Scheduler.History} {x : Attempt} (h : Follows moves x)
    (quiet : accepted part = []) (unpaused : ∀ w ∈ part, w.action ≠ .act .pause) :
    Follows (moves ++ part) x := by
  obtain ⟨earlier, z, later, b, rfl, hz, hquiet, hunpaused, hfound⟩ := h
  refine ⟨earlier, z, later ++ part, b, by simp, hz, ?_, fun w hw => ?_, hfound⟩
  · rw [accepted, List.filterMap_append, List.append_eq_nil_iff]
    exact ⟨hquiet, quiet⟩
  · exact (List.mem_append.1 hw).elim (hunpaused w) (unpaused w)

/-- The change that the adjuster has decided for last, once there is one. -/
def resolution (m : Monitor) (a : Adjuster) : Option Attempt :=
  match m.attempt, a.stage with
  | some (.answered true), .attempting x _ => some x
  | _, _ =>
      if a.tracker.first then none
      else some { state := a.tracker.current.state, plan := a.tracker.current.plan }

theorem resolution_of_not_answered {m : Monitor} {a : Adjuster}
    (h : m.attempt ≠ some (.answered true)) : m.resolution a =
      if a.tracker.first then none
      else some { state := a.tracker.current.state, plan := a.tracker.current.plan } := by
  unfold resolution
  split
  · exact absurd ‹_› h
  · rfl

structure Resolved (moves : Scheduler.History) (m : Monitor) (a : Adjuster) : Prop where
  /-- The call that is waited for, as long as it has not returned, is for the change attempted. -/
  asked : ∀ caller, m.attempt = some (.pending caller) → caller < m.scheduler.nextId ∧
    ∀ asking, m.scheduler.callers.get? caller = some asking →
      ∃ x now, a.stage = .attempting x now ∧ asking.request = .change x.state x.plan
  follows : ∀ x, m.resolution a = some x → x.plan ≠ "" → Follows moves x

section Steps

variable {m m' : Monitor} {a a' : Adjuster} {action : MonitorAction} {events : List SchedulerEvent}
  {moves part : Scheduler.History}

theorem resolution_adjusted (attuned : Attuned m a) (hadjusted : Adjusted m m' action a a')
    (ha' : m'.adjuster = some a') : m'.resolution a' = m.resolution a ∨ m'.Halts := by
  cases hadjusted with
  | aside _ hattempt => exact .inl (by rw [resolution, resolution, hattempt])
  | @moved act _ hact hstep _ hattempt =>
      obtain ⟨-, ⟨-, hidle, -, hcurrent⟩ | ⟨x, now, ⟨⟩, -⟩ | ⟨x, now, succeeded, date, hsettled, -⟩⟩ :=
        Adjuster.step_cases hstep
      · have hnone := attuned.attempt_eq_none hidle
        have hfirst : a'.tracker.first = a.tracker.first := by
          have h := Adjuster.first_of_step hstep
          cases act with
          | settled succeeded date => exact absurd rfl (hact succeeded date)
          | _ => exact h
        left
        rw [resolution_of_not_answered (by simp [hattempt, hnone]),
          resolution_of_not_answered (by simp [hnone]), hfirst, hcurrent]
      · exact absurd hsettled (hact succeeded date)
  | @made act _ x haction hstep hmade =>
      obtain ⟨-, ⟨⟨⟩, -⟩ | ⟨_, now, ⟨⟩, hidle, hstage, hcurrent, -⟩ | ⟨_, _, _, _, -, ⟨⟩, -⟩⟩ :=
        Adjuster.step_cases hstep
      have hnone := attuned.attempt_eq_none hidle
      obtain ⟨hpauses, -, hattempt⟩ | ⟨-, -, hattempt⟩ := hmade
      · exact .inr ⟨hattempt, a', x, now, ha', hstage, by simpa [Attempt.pauses] using hpauses⟩
      · have hfirst : a'.tracker.first = a.tracker.first := by
          have h := Adjuster.first_of_step hstep
          obtain ⟨_, _, rfl⟩ | ⟨_, _, _, rfl⟩ := Adjuster.observes_of_attempt hstep <;> exact h
        left
        rw [resolution_of_not_answered (by simp [hattempt]),
          resolution_of_not_answered (by simp [hnone]), hfirst, hcurrent]
  | @settled succeeded date _ hanswered hstep _ hattempt =>
      obtain ⟨-, ⟨-, hidle, -⟩ | ⟨_, _, ⟨⟩, -⟩ | ⟨x, now, _, _, ⟨⟩, -, hstage, -, hcurrent⟩⟩ :=
        Adjuster.step_cases hstep
      · exact absurd (attuned.attempting (by simp [hanswered])) hidle
      · have hfirst : a'.tracker.first = (a.tracker.first && !succeeded) :=
          Adjuster.first_of_step hstep
        left
        rw [resolution_of_not_answered (by simp [hattempt]), hfirst, hcurrent]
        cases succeeded with
        | true => simp [resolution, hanswered, hstage]
        | false => simp [resolution_of_not_answered, hanswered]

theorem asked_adjusted (attuned : Attuned m a) (h : Resolved moves m a)
    (hadjusted : Adjusted m m' action a a') (caller : Nat)
    (hpending : m'.attempt = some (.pending caller)) : caller < m'.scheduler.nextId ∧
      ∀ asking, m'.scheduler.callers.get? caller = some asking →
        ∃ x now, a'.stage = .attempting x now ∧ asking.request = .change x.state x.plan := by
  cases hadjusted with
  | aside hcontrol hattempt =>
      have hcallers : m'.scheduler.callers = m.scheduler.callers :=
        congrArg Scheduler.Control.callers hcontrol
      have hnextId : m'.scheduler.nextId = m.scheduler.nextId :=
        congrArg Scheduler.Control.nextId hcontrol
      rw [hcallers, hnextId]
      exact h.asked caller (hattempt ▸ hpending)
  | moved hact hstep _ hattempt =>
      obtain ⟨-, ⟨-, hidle, -, -⟩ | ⟨x, now, ⟨⟩, -⟩ | ⟨x, now, succeeded, date, hsettled, -⟩⟩ :=
        Adjuster.step_cases hstep
      · rw [hattempt, attuned.attempt_eq_none hidle] at hpending
        contradiction
      · exact absurd hsettled (hact succeeded date)
  | @made act _ x haction hstep hmade =>
      obtain ⟨-, ⟨⟨⟩, -⟩ | ⟨_, now, ⟨⟩, -, hstage, -⟩ | ⟨_, _, _, _, -, ⟨⟩, -⟩⟩ :=
        Adjuster.step_cases hstep
      obtain ⟨-, -, hattempt⟩ | ⟨-, hcontrol, hattempt⟩ := hmade
      · simp [hattempt] at hpending
      · obtain rfl : m.scheduler.nextId = caller := by simpa [hattempt] using hpending
        have hcallers : m'.scheduler.callers = m.scheduler.callers.insert m.scheduler.nextId _ :=
          congrArg Scheduler.Control.callers hcontrol
        have hnextId : m'.scheduler.nextId = m.scheduler.nextId + 1 :=
          congrArg Scheduler.Control.nextId hcontrol
        refine ⟨by omega, fun asking hasking => ⟨x, now, hstage, ?_⟩⟩
        rw [hcallers, Table.get?_insert_self] at hasking
        rw [← Option.some.inj hasking]
  | settled _ _ _ hattempt => simp [hattempt] at hpending

theorem Resolved.adjusted (h : Resolved moves m a) (attuned : Attuned m a)
    (hadjusted : Adjusted m m' action a a') (ha' : m'.adjuster = some a')
    (hpart : Moves ⟨m, action, m', []⟩ part) : Resolved (moves ++ part) m' a' := by
  have hsilent : ∀ z ∈ part, z.events = [] := List.flatMap_eq_nil_iff.1 hpart.events
  have hquiet : accepted part = [] := by
    refine List.filterMap_eq_nil_iff.2 fun z hz => Scheduler.acceptance_eq_none fun id => ?_
    simp [hsilent z hz, Scheduler.own]
  refine ⟨asked_adjusted attuned h hadjusted, fun x hx hplan => ?_⟩
  have halts : ¬ m'.Halts := by
    rintro ⟨hanswered, b, x', now, hb, hstage, hempty⟩
    obtain rfl := Option.some.inj (ha'.symm.trans hb)
    simp only [resolution, hanswered, hstage, Option.some.injEq] at hx
    exact hplan (hx ▸ hempty)
  rw [(resolution_adjusted attuned hadjusted ha').resolve_right halts] at hx
  exact (h.follows x hx hplan).append hquiet fun z hz hpause => halts (hpart.pauses z hz hpause)

theorem asked_scheduler (h : Resolved moves m a) {act : SchedulerAction} {s : Scheduler}
    (taken : m.scheduler.step act = some (s, events)) (caller : Nat)
    (hpending : (events.foldl react { m with scheduler := s }).attempt = some (.pending caller)) :
    caller < (events.foldl react { m with scheduler := s }).scheduler.nextId ∧
      ∀ asking,
        (events.foldl react { m with scheduler := s }).scheduler.callers.get? caller =
          some asking →
        ∃ x now, a.stage = .attempting x now ∧ asking.request = .change x.state x.plan := by
  obtain ⟨hcontrol, -, hattempt⟩ := ({ m with scheduler := s } : Monitor).foldl_react_frame events
  have hmoved : Scheduler.Moved m.scheduler s (.act act) events := moved taken
  have hcallers : (events.foldl react { m with scheduler := s }).scheduler.callers = s.callers :=
    congrArg Scheduler.Control.callers hcontrol
  have hnextId : (events.foldl react { m with scheduler := s }).scheduler.nextId = s.nextId :=
    congrArg Scheduler.Control.nextId hcontrol
  rw [hcallers, hnextId]
  rcases hattempt with ⟨hsame, -⟩ | ⟨_, _, -, -, hanswered⟩
  · obtain ⟨hbound, hasked⟩ := h.asked caller (hsame ▸ hpending)
    refine ⟨Nat.lt_of_lt_of_le hbound hmoved.nextId, fun asking hasking => ?_⟩
    rcases hmoved.callers caller asking hasking with ⟨before, hbefore, hrequest⟩ | ⟨hnew, -⟩
    · obtain ⟨x, now, hstage, hchange⟩ := hasked before hbefore
      exact ⟨x, now, hstage, hrequest ▸ hchange⟩
    · exact absurd hbound (by omega)
  · simp [hanswered] at hpending

/-- The change that is accepted is the one attempted. -/
theorem resolution_of_accepted (h : Resolved moves m a) (attuned : Attuned m a)
    {act : SchedulerAction} {s : Scheduler} {b : Acceptance}
    (hb : acceptance? ⟨m.scheduler, .act act, s, events⟩ = some b) :
    ∃ x, (events.foldl react { m with scheduler := s }).resolution a = some x ∧
      b.state = x.state ∧ m.scheduler.findSorted x.plan = .ok (b.levels, b.plan) := by
  obtain ⟨hreturned, name, stage, hcaller, hfound⟩ := Scheduler.caller_of_acceptance hb
  have hpending := attuned.waits b.caller ⟨_, b.state, name, hcaller, rfl⟩
  obtain ⟨x, now, hstage, hrequest⟩ := (h.asked b.caller hpending).2 _ hcaller
  obtain ⟨hstate, rfl⟩ := ChangeRequest.change.inj hrequest
  obtain ⟨-, -, ⟨-, hnone⟩ | ⟨caller, result, hother, hanswer, hattempt⟩⟩ :=
    ({ m with scheduler := s } : Monitor).foldl_react_frame events
  · exact absurd hreturned (hnone b.caller (.ok ()) hpending)
  · have hown := Scheduler.own_of_acceptance hb
    rw [← Scheduler.mem_own rfl, hown] at hanswer
    obtain ⟨-, rfl⟩ : caller = b.caller ∧ result = .ok () := by simpa using hanswer
    refine ⟨x, ?_, hstate, hfound⟩
    have hanswered : (events.foldl react { m with scheduler := s }).attempt =
        some (.answered true) := hattempt
    simp [resolution, hanswered, hstage]

/-- Nothing else that the scheduler does makes the adjuster decide. -/
theorem resolution_of_not_accepted (linked : m.scheduler.Linked) (h : Resolved moves m a)
    {act : SchedulerAction} {s : Scheduler} (taken : m.scheduler.step act = some (s, events))
    (hnone : acceptance? ⟨m.scheduler, .act act, s, events⟩ = none) :
    (events.foldl react { m with scheduler := s }).resolution a = m.resolution a := by
  obtain ⟨-, -, ⟨hsame, -⟩ | ⟨caller, result, hpending, hreturned, hanswered⟩⟩ :=
    ({ m with scheduler := s } : Monitor).foldl_react_frame events
  · rw [resolution, resolution, show _ = m.attempt from hsame]
  · have hpending : m.attempt = some (.pending caller) := hpending
    cases result with
    | error e =>
        rw [resolution_of_not_answered (by rw [hanswered]; simp [Except.isOk, Except.toBool]),
          resolution_of_not_answered (by simp [hpending])]
    | ok =>
        have taken : m.scheduler.move (.act act) = some (s, events) := taken
        obtain ⟨⟨request, stage⟩, hcaller⟩ := Scheduler.caller_of_returned linked taken hreturned
        obtain ⟨x, now, -, hrequest⟩ := (h.asked caller hpending).2 _ hcaller
        simp only at hrequest
        subst hrequest
        obtain ⟨b, hb, -⟩ := Scheduler.acceptance_of_returned
          (y := ⟨m.scheduler, .act act, s, events⟩) linked taken hcaller hreturned
        simp [hnone] at hb

theorem Resolved.scheduler (h : Resolved moves m a) (attuned : Attuned m a)
    (linked : m.scheduler.Linked) {act : SchedulerAction} (hallows : m.allows act = true)
    {s : Scheduler} (taken : m.scheduler.step act = some (s, events)) {later : Scheduler.History}
    (silent : ∀ z ∈ later, z.events = [] ∧ z.action ≠ .act .pause) :
    Resolved (moves ++ ⟨m.scheduler, .act act, s, events⟩ :: later)
      (events.foldl react { m with scheduler := s }) a := by
  have hquiet : accepted later = [] := by
    refine List.filterMap_eq_nil_iff.2 fun z hz => Scheduler.acceptance_eq_none fun id => ?_
    simp [(silent z hz).1, Scheduler.own]
  refine ⟨asked_scheduler h taken, fun x hx hplan => ?_⟩
  cases hsome : acceptance? (⟨m.scheduler, .act act, s, events⟩ :
      Step Scheduler Move SchedulerEvent) with
  | some b =>
      obtain ⟨x', hx', hstate, hfound⟩ := resolution_of_accepted h attuned hsome
      obtain rfl := Option.some.inj (hx.symm.trans hx')
      exact ⟨moves, _, later, b, rfl, hsome, hquiet, fun w hw => (silent w hw).2, hstate, hfound⟩
  | none =>
      rw [resolution_of_not_accepted linked h taken hsome] at hx
      refine (h.follows x hx hplan).append ?_ fun w hw => ?_
      · rw [accepted, List.filterMap_cons_none hsome]
        exact hquiet
      · rcases List.mem_cons.1 hw with rfl | hw
        · simp only [ne_eq, Move.act.injEq]
          rintro rfl
          simp [allows] at hallows
        · exact (silent w hw).2

end Steps

theorem name_of_findSorted {s : Scheduler} (named : s.store.Named) {name : String}
    (hname : name ≠ "") {levels : List SortedLevel} {plan : Plan}
    (h : s.findSorted name = .ok (levels, plan)) : plan.name = name := by
  rw [Scheduler.findSorted] at h
  cases hfound : s.store.find name with
  | error e => simp [hfound, Except.bind] at h
  | ok found =>
      have hsort : found.sort = .ok (levels, plan) := by simpa [hfound, Except.bind] using h
      rw [Plan.name_of_sort hsort, named.name_of_find hname hfound]

section Runs

variable {config : Config} {policy : Policy} {store : PlanStore} {sinks : List String}
  {transform : Option (Batch → Batch)} {now : Nat} {date : Utc} {history : History} {m : Monitor}
  {a : Adjuster}

theorem glides_create (config : Config) (store : PlanStore) (sinks : List String)
    (transform : Option (Batch → Batch)) (now : Nat) (date : Utc) : ∃ settings engine,
    Glides False (.create settings (.create engine ∅) store sinks)
      (create config store sinks transform now date).scheduler := by
  unfold create
  extract_lets engine settings
  exact ⟨settings, engine, glides_publish (m := {
    scheduler := .create settings (.create engine ∅) store sinks
    adjuster := config.policy.map (fun p => .create p config.readOnlyTimeout now date)
    plan := config.plan })⟩

theorem lifted_create (config : Config) (store : PlanStore) (sinks : List String)
    (transform : Option (Batch → Batch)) (now : Nat) (date : Utc) : ∃ settings engine moves,
    Lifted (.create settings (.create engine ∅) store sinks) []
      (create config store sinks transform now date) moves := by
  obtain ⟨settings, engine, moves, run, quiet⟩ :=
    glides_create config store sinks transform now date
  refine ⟨settings, engine, moves, run, ?_, ?_, fun z hz hsome => absurd (quiet z hz).1 hsome⟩
  · exact Scheduler.stays_of_none_dropped fun z hz => (quiet z hz).2.1
  · rw [List.flatMap_nil, List.flatMap_eq_nil_iff]
    exact fun z hz => (quiet z hz).1

theorem resolved_of_run (hpolicy : config.policy = some policy)
    (run : Run step (create config store sinks transform now date) history m) :
    ∃ a settings engine moves, m.adjuster = some a ∧ Attuned m a ∧
      Lifted (.create settings (.create engine ∅) store sinks) history m moves ∧
      Resolved moves m a := by
  induction run with
  | nil =>
      obtain ⟨settings, engine, moves, lifted⟩ := lifted_create config store sinks transform now date
      have hattempt : (create config store sinks transform now date).attempt = none :=
        publish_attempt
      refine ⟨.create policy config.readOnlyTimeout now date, settings, engine, moves, ?_,
        attuned_create, lifted, ?_, fun x hx => ?_⟩
      · rw [create, publish_adjuster, hpolicy]
        rfl
      · simp [hattempt]
      · rw [resolution_of_not_answered (by simp [hattempt])] at hx
        simp [Adjuster.create, Tracker.create] at hx
  | @snoc history m m' action events _ taken ih =>
      obtain ⟨a, settings, engine, moves, ha, attuned, lifted, resolved⟩ := ih
      rcases step_cases ha taken with ⟨act, s, rfl, hallows, hstep, rfl⟩ | ⟨rfl, a', ha', hadjusted⟩
      · obtain ⟨later, hpart, silent⟩ := moves_of_scheduler
          (y := ⟨m, .scheduler act, events.foldl react { m with scheduler := s }, events⟩)
          rfl hallows hstep rfl
        refine ⟨a, settings, engine, _, (foldl_react_frame _).2.1.trans ha,
          attuned.scheduler hallows hstep, lifted.snoc attuned.ownsCalls hpart, ?_⟩
        exact resolved.scheduler attuned
          (Scheduler.linked_of_run (Scheduler.linked_create ..) lifted.run) hallows hstep silent
      · obtain ⟨part, hpart⟩ := moves_of_step (y := ⟨m, action, m', []⟩) taken
        exact ⟨a', settings, engine, _, ha', attuned.adjusted hadjusted, lifted.snoc attuned.ownsCalls hpart,
          resolved.adjusted attuned hadjusted ha' hpart⟩

/-- Once nothing is in flight, the plan that the adjuster has taken up is in force if the change to
it has been activated.  If not, everything is as it was when that change was accepted. -/
theorem taken_up_when_accepted (hpolicy : config.policy = some policy) (named : store.Named)
    (run : Run step (create config store sinks transform now date) history m)
    (ha : m.adjuster = some a) (committed : a.tracker.first = false)
    (hplan : a.tracker.current.plan ≠ "") (settled : m.attempt ≠ some (.answered true))
    (idle : ∀ change, ¬ m.scheduler.InFlight change) :
    ∃ x ∈ history, ∃ caller c, .returned caller (.ok ()) ∈ x.events ∧
      m.scheduler.changes.get? x.before.scheduler.nextId = some c ∧ c.stage = .ended ∧
      c.state = a.tracker.current.state ∧ c.plan.name = a.tracker.current.plan ∧
      ((∃ y ∈ history, .activated x.before.scheduler.nextId ∈ y.events) →
        m.scheduler.active.state = some a.tracker.current.state ∧
          m.scheduler.active.plan = a.tracker.current.plan ∧ m.scheduler.paused = false) ∧
      ((∀ y ∈ history, .activated x.before.scheduler.nextId ∉ y.events) →
        m.scheduler.active = x.before.scheduler.active ∧
          m.scheduler.paused = x.before.scheduler.paused) := by
  obtain ⟨a', settings, engine, moves, ha', -, lifted, resolved⟩ := resolved_of_run hpolicy run
  obtain rfl := Option.some.inj (ha.symm.trans ha')
  have hresolution := resolution_of_not_answered (a := a) settled
  rw [committed, if_neg Bool.false_ne_true] at hresolution
  obtain ⟨earlier, z, later, b, rfl, hb, quiet, unpaused, hstate, hfound⟩ :=
    resolved.follows _ hresolution hplan
  have ⟨hreturned, _⟩ := Scheduler.caller_of_acceptance hb
  obtain ⟨x, hx, hbefore, hevents⟩ := lifted.origin z (by simp) (List.ne_nil_of_mem hreturned)
  obtain ⟨before, accepting, -⟩ := lifted.run.taken
  have hnumber := (Scheduler.nextId_of_acceptance
    (Scheduler.linked_of_run (Scheduler.linked_create ..) before) accepting hb).1
  rw [← hbefore] at hnumber
  obtain ⟨c, hc, hsame, hscheduled⟩ :=
    (Scheduler.accounted_of_run lifted.run lifted.stays).listed.known b
      (List.mem_filterMap.2 ⟨z, by simp, hb⟩)
  obtain ⟨hactive, hunchanged⟩ :=
    Scheduler.settled_of_idle lifted.run lifted.stays hb quiet unpaused idle
  have hactivated : Scheduler.Activated later b.change ↔
      ∃ y ∈ history, .activated x.before.scheduler.nextId ∈ y.events := by
    rw [← Scheduler.activated_since_accepted lifted.run hb, ← hnumber]
    simp only [Scheduler.Activated, ← List.mem_flatMap, lifted.events]
  have hname : b.plan.name = a.tracker.current.plan := by
    have hstore : z.before.store = store := by
      refine before.invariant ?_ fun taken hs => (Scheduler.fixed_of_move taken).store.trans hs
      rfl
    exact name_of_findSorted (hstore ▸ named) hplan hfound
  refine ⟨x, hx, b.caller, c, hevents ▸ hreturned, hnumber ▸ hc, ?_, ?_, ?_, fun h => ?_, fun h => ?_⟩
  · by_contra hopen
    exact idle b.change ⟨c, hc, hopen⟩
  · have hstate' : some c.state = some b.state := congrArg Active.state hscheduled
    exact (Option.some.inj hstate').trans hstate
  · rw [hsame, hname]
  · obtain ⟨hnow, hpaused⟩ := hactive (hactivated.2 h)
    refine ⟨?_, ?_, hpaused⟩
    · rw [hnow]
      exact congrArg some hstate
    · rw [hnow, ← hname]
      rfl
  · rw [hbefore]
    refine hunchanged fun h' => ?_
    obtain ⟨y, hy, hevent⟩ := hactivated.1 h'
    exact h y hy hevent

end Runs

/-- The instance takes writes, and the plan for that is accepted and then prepared like this. -/
def acceptedRun (prepares : List EngineAction) : History × Monitor :=
  Run.follow step activeOnly
    ([.run, .adjuster (.standby false), .adjuster (.readOnly .writable),
      .adjuster (.take 0 .epoch), .scheduler (.grant 0), .settle .epoch,
      .scheduler (.beginChange 1)] ++ prepares.map (.scheduler ∘ .engine) ++
      [.scheduler (.reportChange 1), .scheduler (.endChange 1)])

def successful : List EngineAction :=
  Scheduler.allPrepared ++ [.swap 0 .all, .cleanUp 0 none, .prune 0]

def unsuccessful : List EngineAction :=
  [.pinged 0 .answered, .copyLive 0, .visit 0 .created false,
    .collectorPrepared 0 (.failed ["no access"])]

theorem taken_up_when_accepted_successful :
    (acceptedRun successful).2.adjuster.map
        (fun a => (a.tracker.current.state, a.tracker.current.plan)) = some (.active, "p") ∧
      (acceptedRun successful).2.scheduler.active.state = some .active ∧
      (acceptedRun successful).2.scheduler.active.plan = "p" ∧
      (acceptedRun successful).2.scheduler.paused = false := by
  have hrun : Run step activeOnly (acceptedRun successful).1 (acceptedRun successful).2 :=
    Run.of_follow ..
  have hcurrent : (acceptedRun successful).2.adjuster.map (fun a =>
      ((a.tracker.current.state, a.tracker.current.plan), a.tracker.first)) =
      some ((.active, "p"), false) := by decide +kernel
  obtain ⟨a, ha, hcurrent⟩ := Option.map_eq_some_iff.1 hcurrent
  obtain ⟨hboth, hfirst⟩ := Prod.mk.inj hcurrent
  obtain ⟨hstate, hplan⟩ := Prod.mk.inj hboth
  have hover : ∀ e ∈ (acceptedRun successful).2.scheduler.changes.toList, e.2.stage = .ended := by
    decide +kernel
  -- what remains here of the scheduler's own words is the answer to the call
  have hall : ∀ x ∈ (acceptedRun successful).1, ∀ event ∈ x.events, event.isOwn = true →
      Scheduler.activated? event = none → Scheduler.ended? event = none →
      ∃ y ∈ (acceptedRun successful).1, .activated x.before.scheduler.nextId ∈ y.events := by
    decide +kernel
  obtain ⟨x, hx, caller, c, hreturned, -, -, -, -, hactive, -⟩ :=
    taken_up_when_accepted rfl (PlanStore.named_empty.add _) hrun ha hfirst (by simp [hplan])
      (by decide +kernel) (by
        rintro change ⟨c, hc, hopen⟩
        exact hopen (hover (change, c) (Table.get?_eq_some_iff.1 hc)))
  have hactive := hactive (hall x hx _ hreturned rfl rfl rfl)
  rw [hstate, hplan] at hactive
  refine ⟨?_, hactive⟩
  rw [ha, Option.map_some, hstate, hplan]

/-- The plan is current for the adjuster, but nothing is scheduled and nothing will be. -/
theorem taken_up_although_not_prepared :
    Run step activeOnly (acceptedRun unsuccessful).1 (acceptedRun unsuccessful).2 ∧
      (acceptedRun unsuccessful).2.adjuster.map
          (fun a => (a.tracker.current.state, a.tracker.current.plan, a.tracker.first)) =
        some (.active, "p", false) ∧
      (acceptedRun unsuccessful).2.attempt = none ∧
      (∀ change, ¬ (acceptedRun unsuccessful).2.scheduler.InFlight change) ∧
      (acceptedRun unsuccessful).2.scheduler.active = {} := by
  have hover : ∀ e ∈ (acceptedRun unsuccessful).2.scheduler.changes.toList, e.2.stage = .ended := by
    decide +kernel
  refine ⟨Run.of_follow .., by decide +kernel, by decide +kernel, ?_, by decide +kernel⟩
  rintro change ⟨c, hc, hopen⟩
  exact hopen (hover (change, c) (Table.get?_eq_some_iff.1 hc))

end Cadence.Monitor
