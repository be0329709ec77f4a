import Cadence.Proofs.Scheduler.Acceptances

/-!
# The change in force

Whatever else happens, what is scheduled is the plan of the change that was
activated last, as it was found when that change was accepted.
-/

namespace Cadence.Scheduler

variable {s s' : Scheduler} {action : Move} {raised : List SchedulerEvent} {history : History}
  {y : Step Scheduler Move SchedulerEvent} {change : Nat}

def activated? : SchedulerEvent → Option Nat
  | .activated change => some change
  | _ => none

/-- The changes that have been activated, in turn. -/
def activations (history : History) : List Nat :=
  history.flatMap (·.events.filterMap activated?)

/-- The call by which a change came about. -/
def acceptanceOf? (history : History) (change : Nat) : Option Acceptance :=
  (accepted history).find? (·.change = change)

/-- What is scheduled after this history. -/
def inForce (history : History) : Active :=
  (((activations history).getLast?.bind (acceptanceOf? history)).map (·.scheduled)).getD {}

/-- Changes are known by the calls that they go back to. -/
structure Recorded (history : History) (s : Scheduler) : Prop where
  fresh : ∀ a ∈ accepted history, a.change < s.nextId
  known : ∀ k c, s.changes.get? k = some c →
    ∃ a, acceptanceOf? history k = some a ∧ c.scheduled = a.scheduled ∧ c.plan = a.plan
  activated : ∀ k ∈ activations history, ∃ a, acceptanceOf? history k = some a
  active : s.active = inForce history

/-! ## Histories -/

theorem mem_filterMap_activated {events : List SchedulerEvent} :
    change ∈ events.filterMap activated? ↔ .activated change ∈ events := by
  rw [List.mem_filterMap]
  constructor
  · rintro ⟨event, hevent, hchange⟩
    cases event with
    | activated k =>
        obtain rfl := Option.some.inj hchange
        exact hevent
    | _ => contradiction
  · exact fun h => ⟨_, h, rfl⟩

theorem mem_activations : change ∈ activations history ↔ Activated history change := by
  simp only [activations, List.mem_flatMap, mem_filterMap_activated, Activated]

theorem activations_append (history more : History) :
    activations (history ++ more) = activations history ++ activations more :=
  List.flatMap_append

theorem activations_snoc :
    activations (history ++ [y]) = activations history ++ y.events.filterMap activated? := by
  simp [activations]

theorem mem_of_acceptanceOf? {a : Acceptance} (h : acceptanceOf? history change = some a) :
    a ∈ accepted history ∧ a.change = change :=
  ⟨List.mem_of_find?_eq_some h, by simpa using List.find?_some h⟩

theorem acceptanceOf?_snoc_of_some {a : Acceptance} (h : acceptanceOf? history change = some a) :
    acceptanceOf? (history ++ [y]) change = some a := by
  rw [acceptanceOf?, accepted_snoc, List.find?_append]
  rw [acceptanceOf?] at h
  rw [h, Option.some_or]

theorem acceptanceOf?_snoc_of_accepted {a : Acceptance}
    (fresh : ∀ b ∈ accepted history, b.change ≠ a.change) (h : acceptance? y = some a) :
    acceptanceOf? (history ++ [y]) a.change = some a := by
  have hnone : (accepted history).find? (·.change = a.change) = none :=
    List.find?_eq_none.2 fun b hb => by simpa using fresh b hb
  rw [acceptanceOf?, accepted_snoc, List.find?_append, hnone, h]
  simp

theorem inForce_of_getLast {a : Acceptance} (hlast : (activations history).getLast? = some change)
    (ha : acceptanceOf? history change = some a) : inForce history = a.scheduled := by
  rw [inForce, hlast, Option.bind_some, ha]
  rfl

/-! ## One move -/

theorem acceptance_of_accepts {caller : Nat} {later : PlanChange}
    (h : y.before.Accepts y.action caller later)
    (hevents : y.events = [.returned caller (.ok ())]) :
    ∃ a, acceptance? y = some a ∧ a.change = y.before.nextId ∧ later.scheduled = a.scheduled ∧
      later.plan = a.plan := by
  obtain ⟨-, ⟨request, stage⟩, name, hcaller, hrequest, hfound, -⟩ := h
  simp only at hrequest
  subst hrequest
  refine ⟨⟨caller, y.before.nextId, later.state, later.levels, later.plan⟩, ?_, rfl, rfl, rfl⟩
  have hown : own y.events = [.returned caller (.ok ())] := by rw [hevents]; rfl
  simp only [acceptance?, hown, hcaller, hfound]

/-- Whoever has a change accepted has asked for its plan by this name. -/
theorem caller_of_acceptance {a : Acceptance} (h : acceptance? y = some a) :
    .returned a.caller (.ok ()) ∈ y.events ∧ ∃ name stage,
      y.before.callers.get? a.caller = some { request := .change a.state name, stage } ∧
        y.before.findSorted name = .ok (a.levels, a.plan) := by
  unfold acceptance? at h
  split at h
  · next caller hown =>
      split at h
      · next state name stage hcaller =>
          split at h
          · next levels plan hfound =>
              obtain rfl := Option.some.inj h
              refine ⟨(mem_own rfl).1 ?_, name, stage, hcaller, hfound⟩
              rw [hown]
              exact List.mem_singleton_self _
          · contradiction
      · contradiction
  · contradiction

theorem caller_of_returned (linked : s.Linked) (taken : s.move action = some (s', raised))
    {caller : Nat} {result : Except PlanError Unit} (h : .returned caller result ∈ raised) :
    ∃ asking, s.callers.get? caller = some asking := by
  rw [← mem_own rfl] at h
  rcases serves_or_proceeds linked taken with serves | proceeds
  · generalize own raised = events at serves h
    cases serves with
    | refuses turn =>
        obtain ⟨rfl, -⟩ : caller = _ ∧ result = _ := by simpa using h
        exact turn.caller.imp' (fun stage => { request := _, stage }) fun _ => id
    | accepts turn =>
        obtain ⟨rfl, -⟩ : caller = _ ∧ result = _ := by simpa using h
        exact turn.caller.imp' (fun stage => { request := _, stage }) fun _ => id
    | answers turn =>
        obtain ⟨rfl, -⟩ : caller = _ ∧ result = _ := by simpa using h
        exact turn.caller.imp' (fun stage => { request := _, stage }) fun _ => id
    | _ => simp at h
  · generalize own raised = events at proceeds h
    cases proceeds with
    | works _ _ _ hrun => exact absurd (hrun _ h) Bool.false_ne_true
    | _ => simp at h

theorem nextId_of_acceptance (linked : y.before.Linked)
    (taken : y.before.move y.action = some (y.after, y.events)) {a : Acceptance}
    (h : acceptance? y = some a) :
    a.change = y.before.nextId ∧ y.after.nextId = y.before.nextId + 1 := by
  rcases serves_or_proceeds linked taken with serves | proceeds
  · rcases serves.accepted_cases with ⟨hnone, -⟩ |
      ⟨id, state, name, levels, plan, -, -, hcontrol, hsome⟩
    · simp [hnone] at h
    · obtain rfl := Option.some.inj (hsome.symm.trans h)
      exact ⟨rfl, congrArg Control.nextId hcontrol⟩
  · simp [proceeds.not_accepted] at h

theorem scheduled_of_becomes {c later : PlanChange} (h : c.Becomes later) :
    later.scheduled = c.scheduled := by
  simp only [PlanChange.scheduled, h.levels, h.state, h.plan]

/-- A move activates one change at most. -/
theorem activates_of_move (linked : s.Linked) (taken : s.move action = some (s', raised)) :
    raised.filterMap activated? = [] ∨ ∃ k c, raised.filterMap activated? = [k] ∧
      s.changes.get? k = some c ∧ s'.active = c.scheduled := by
  rw [← filterMap_own fun _ => rfl]
  rcases serves_or_proceeds linked taken with serves | proceeds
  · generalize own raised = events at serves
    exact .inl (by cases serves <;> rfl)
  · generalize own raised = events at proceeds
    cases proceeds with
    | works _ _ _ hrun =>
        refine .inl (List.filterMap_eq_nil_iff.2 fun event hevent => ?_)
        have hrun := hrun event hevent
        cases event <;> first | rfl | contradiction
    | goesLive _ _ _ _ hc _ hcontrol =>
        exact .inr ⟨_, _, rfl, hc, congrArg Control.active hcontrol⟩
    | breaksOff _ _ _ _ hc _ hcontrol =>
        exact .inr ⟨_, _, rfl, hc, congrArg Control.active hcontrol⟩
    | _ => exact .inl rfl

theorem Recorded.move (h : Recorded history y.before) (linked : y.before.Linked)
    (taken : y.before.move y.action = some (y.after, y.events)) :
    Recorded (history ++ [y]) y.after := by
  have known : ∀ {k c}, y.before.changes.get? k = some c →
      ∃ a, acceptanceOf? (history ++ [y]) k = some a ∧ c.scheduled = a.scheduled ∧
        c.plan = a.plan := by
    intro k c hc
    obtain ⟨a, ha, hsame⟩ := h.known k c hc
    exact ⟨a, acceptanceOf?_snoc_of_some ha, hsame⟩
  refine ⟨fun a ha => ?_, fun k later hlater => ?_, fun k hk => ?_, ?_⟩
  · rw [accepted_snoc, List.mem_append, Option.mem_toList] at ha
    rcases ha with ha | hnew
    · exact Nat.lt_of_lt_of_le (h.fresh a ha) (moved taken).nextId
    · obtain ⟨hnumber, hnext⟩ := nextId_of_acceptance linked taken hnew
      omega
  · rcases (moved taken).changes k later hlater with ⟨c, hc, hbecomes⟩ | ⟨rfl, caller, accepts, hevents⟩
    · obtain ⟨a, ha, hscheduled, hplan⟩ := known hc
      exact ⟨a, ha, (scheduled_of_becomes hbecomes).trans hscheduled, hbecomes.plan.trans hplan⟩
    · obtain ⟨a, ha, hnumber, hsame⟩ := acceptance_of_accepts accepts hevents
      refine ⟨a, ?_, hsame⟩
      rw [← hnumber]
      refine acceptanceOf?_snoc_of_accepted (fun b hb => ?_) ha
      exact hnumber ▸ Nat.ne_of_lt (h.fresh b hb)
  · rw [activations_snoc, List.mem_append, mem_filterMap_activated] at hk
    rcases hk with hk | hnew
    · obtain ⟨a, ha⟩ := h.activated k hk
      exact ⟨a, acceptanceOf?_snoc_of_some ha⟩
    · obtain ⟨c, hc, -⟩ := (moved taken).activated k hnew
      obtain ⟨a, ha, -⟩ := known hc
      exact ⟨a, ha⟩
  · rcases activates_of_move linked taken with hnone | ⟨k, c, hone, hc, hactive⟩
    · have hquiet : ∀ k, .activated k ∉ y.events := by
        simp [← mem_filterMap_activated, hnone]
      rw [(moved taken).active hquiet, h.active, inForce, inForce, activations_snoc, hnone,
        List.append_nil]
      cases hlast : (activations history).getLast? with
      | none => rfl
      | some k =>
          obtain ⟨a, ha⟩ := h.activated k (List.mem_of_getLast? hlast)
          simp [ha, acceptanceOf?_snoc_of_some ha]
    · obtain ⟨a, ha, hscheduled, -⟩ := known hc
      rw [hactive, hscheduled, inForce_of_getLast ?_ ha]
      rw [activations_snoc, hone, List.getLast?_concat]

theorem recorded_of_run {settings : SchedulerSettings} {engine : EngineSettings} {board : Board}
    {store : PlanStore} {sinks : List String} {last : Scheduler}
    (run : Run Scheduler.move (create settings (.create engine board) store sinks) history last) :
    Recorded history last := by
  induction run with
  | nil =>
      refine ⟨by simp [accepted], ?_, by simp [activations], rfl⟩
      simp [create, say, setStatus]
  | snoc run taken ih => exact ih.move (y := ⟨_, _, _, _⟩) (linked_of_run (linked_create ..) run) taken

end Cadence.Scheduler
