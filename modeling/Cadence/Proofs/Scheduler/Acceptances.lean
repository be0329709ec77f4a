import Cadence.Proofs.Scheduler.Turns

/-!
# What a history tells of changes

Which changes of plan were accepted, which of these began and which ended.  The
three lists differ in their last element at most, by the change in flight.
-/

namespace Cadence

/-- The later change is the same one, and cancelled if that was. -/
structure PlanChange.Stands (c later : PlanChange) : Prop where
  plan : later.plan = c.plan
  scheduled : later.scheduled = c.scheduled
  cancelled : c.cancelled = true → later.cancelled = true

theorem PlanChange.Stands.refl (c : PlanChange) : c.Stands c := ⟨rfl, rfl, id⟩

namespace Scheduler

/-- A call for a plan that has returned, with what it has found under the name. -/
structure Acceptance where
  caller : Nat
  change : Nat
  state : InstanceState
  levels : List SortedLevel
  plan : Plan

namespace Acceptance

def scheduled (a : Acceptance) : Active where
  levels := a.levels
  state := some a.state
  plan := a.plan.name

end Acceptance

def acceptance? (y : Step Scheduler Move SchedulerEvent) : Option Acceptance :=
  match own y.events with
  | [.returned caller (.ok ())] =>
      match y.before.callers.get? caller with
      | some { request := .change state name, .. } =>
          match y.before.findSorted name with
          | .ok (levels, plan) => some { caller, change := y.before.nextId, state, levels, plan }
          | .error _ => none
      | _ => none
  | _ => none

def granted? (y : Step Scheduler Move SchedulerEvent) : Option Nat :=
  match y.action with
  | .act (.grant caller) =>
      match y.before.callers.get? caller with
      | some { request := .change .., .. } => some caller
      | _ => none
  | _ => none

def begun? (y : Step Scheduler Move SchedulerEvent) : Option Nat :=
  match y.action with
  | .act (.beginChange change) => some change
  | _ => none

def ended? : SchedulerEvent → Option Nat
  | .changeEnded change _ => some change
  | _ => none

def accepted (history : History) : List Acceptance := history.filterMap acceptance?

/-- The callers who got the lock to have a plan changed. -/
def granted (history : History) : List Nat := history.filterMap granted?

def begun (history : History) : List Nat := history.filterMap begun?

def ended (history : History) : List Nat := history.flatMap (·.events.filterMap ended?)

def EndedWith (history : History) (change : Nat) (outcome : PrepareOutcome) : Prop :=
  ∃ y ∈ history, .changeEnded change outcome ∈ y.events

/-- The changes in flight, and of these the ones whose tasks have begun. -/
inductive Phase (s : Scheduler) : List Nat → List Nat → Prop
  | idle : (∀ k, ¬ s.InFlight k) → Phase s [] []
  | spawned {k : Nat} {c : PlanChange} : s.changes.get? k = some c → c.stage = .spawned →
      Phase s [k] []
  | begun {k : Nat} {c : PlanChange} : s.changes.get? k = some c → c.stage ≠ .spawned →
      c.stage ≠ .ended → Phase s [k] [k]

variable {s s' : Scheduler} {action : Move} {raised : List SchedulerEvent} {history : History}
  {y : Step Scheduler Move SchedulerEvent} {id change : Nat}

/-! ## The lists of a history -/

theorem accepted_snoc : accepted (history ++ [y]) = accepted history ++ (acceptance? y).toList := by
  rw [accepted, List.filterMap_append]
  cases h : acceptance? y <;> simp [accepted, h]

theorem granted_snoc : granted (history ++ [y]) = granted history ++ (granted? y).toList := by
  rw [granted, List.filterMap_append]
  cases h : granted? y <;> simp [granted, h]

theorem begun_snoc : begun (history ++ [y]) = begun history ++ (begun? y).toList := by
  rw [begun, List.filterMap_append]
  cases h : begun? y <;> simp [begun, h]

theorem filterMap_own {β : Type} {f : SchedulerEvent → Option β}
    (hf : ∀ event, f (.engine event) = none) (events : List SchedulerEvent) :
    (own events).filterMap f = events.filterMap f := by
  rw [own, List.filterMap_filter]
  refine List.filterMap_congr fun event _ => ?_
  cases event with
  | engine event => simp [SchedulerEvent.isOwn, hf]
  | _ => rfl

theorem ended_snoc :
    ended (history ++ [y]) = ended history ++ (own y.events).filterMap ended? := by
  rw [filterMap_own fun _ => rfl]
  simp [ended]

theorem endedWith_snoc {outcome : PrepareOutcome} :
    EndedWith (history ++ [y]) change outcome ↔
      EndedWith history change outcome ∨ .changeEnded change outcome ∈ own y.events := by
  rw [mem_own rfl]
  simp only [EndedWith, List.mem_append, List.mem_singleton, or_and_right, exists_or, exists_eq_left]

theorem Serves.not_begun (serves : Serves y.before y.after y.action raised) : begun? y = none := by
  obtain ⟨before, action, after, events⟩ := y
  cases serves with
  | asks hkind =>
      rcases hkind with hkind | ⟨hkind, -⟩ <;> simp only at hkind <;> subst hkind <;> rfl
  | refuses turn => cases turn <;> rfl
  | accepts turn => cases turn <;> rfl
  | awaits => rfl
  | joins => rfl
  | answers turn => cases turn <;> rfl
  | closes turn => cases turn <;> rfl
  | drops => rfl

theorem Serves.not_ended (serves : Serves s s' action raised) :
    raised.filterMap ended? = [] := by
  cases serves <;> rfl

theorem Proceeds.not_accepted (proceeds : Proceeds y.before y.after y.action (own y.events)) :
    acceptance? y = none := by
  have hkind : ∀ caller, own y.events ≠ [.returned caller (.ok ())] := by
    intro caller hown
    rw [hown] at proceeds
    generalize y.action = action at proceeds
    cases proceeds with
    | works _ _ _ hrun => exact Bool.false_ne_true (hrun _ (List.mem_singleton_self _))
  unfold acceptance?
  split
  · next caller hown => exact absurd hown (hkind caller)
  · rfl

theorem Proceeds.not_granted (proceeds : Proceeds y.before y.after y.action raised) :
    granted? y = none := by
  obtain ⟨before, action, after, events⟩ := y
  cases proceeds with
  | works hwork =>
      cases action with
      | post line => rfl
      | act action => cases action <;> first | rfl | contradiction
  | _ => rfl

theorem acceptance_eq_none (h : ∀ id, own y.events ≠ [.returned id (.ok ())]) :
    acceptance? y = none := by
  unfold acceptance?
  split
  · next id hown => exact absurd hown (h id)
  · rfl

theorem acceptance_of_wait (hown : own y.events = [.returned id (.ok ())])
    (turn : y.before.Turn id .wait action) : acceptance? y = none := by
  obtain ⟨stage, hcaller⟩ := turn.caller
  simp only [acceptance?, hown, hcaller]

theorem acceptance_of_change (hown : own y.events = [.returned id (.ok ())])
    {state : InstanceState} {name : String} {levels : List SortedLevel} {plan : Plan}
    (turn : y.before.Turn id (.change state name) action)
    (hfound : y.before.findSorted name = .ok (levels, plan)) :
    acceptance? y = some { caller := id, change := y.before.nextId, state, levels, plan } := by
  obtain ⟨stage, hcaller⟩ := turn.caller
  simp only [acceptance?, hown, hcaller, hfound]

/-- Of all that is done for callers, only an accepted change adds to those in flight. -/
theorem Serves.accepted_cases (serves : Serves y.before y.after y.action (own y.events)) :
    acceptance? y = none ∧ (∀ k, y.after.InFlight k → y.before.InFlight k) ∧
        y.after.changing = y.before.changing ∨
      ∃ id state name levels plan, y.before.Turn id (.change state name) y.action ∧
        (y.action = .act (.grant id) → y.before.latest = none) ∧
        y.after.control = (y.before.accept id state plan levels).1.control ∧
        acceptance? y = some { caller := id, change := y.before.nextId, state, levels, plan } := by
  obtain ⟨before, action, after, events⟩ := y
  simp only at serves
  generalize hown : own events = raised at serves
  have silent := acceptance_eq_none (y := ⟨before, action, after, events⟩)
  simp only [hown] at silent
  cases serves with
  | asks _ hcontrol =>
      exact .inl ⟨silent (by simp), fun _ => inFlight_of_eq (congrArg Control.changes hcontrol),
        congrArg Control.changing hcontrol⟩
  | refuses _ _ hcontrol =>
      exact .inl ⟨silent (by simp), fun _ => inFlight_of_eq (congrArg Control.changes hcontrol),
        congrArg Control.changing hcontrol⟩
  | accepts turn hlatest hfound hcontrol =>
      exact .inr ⟨_, _, _, _, _, turn, hlatest, hcontrol, acceptance_of_change hown turn hfound⟩
  | awaits _ _ _ _ _ hcontrol =>
      exact .inl ⟨silent (by simp), fun _ =>
        inFlight_of_modify (congrArg Control.changes hcontrol), congrArg Control.changing hcontrol⟩
  | joins _ _ _ hcontrol =>
      exact .inl ⟨silent (by simp), fun _ => inFlight_of_eq (congrArg Control.changes hcontrol),
        congrArg Control.changing hcontrol⟩
  | answers turn _ hcontrol =>
      exact .inl ⟨acceptance_of_wait hown turn, fun _ =>
        inFlight_of_eq (congrArg Control.changes hcontrol), congrArg Control.changing hcontrol⟩
  | closes _ _ hcontrol =>
      exact .inl ⟨silent (by simp), fun _ => inFlight_of_eq (congrArg Control.changes hcontrol),
        congrArg Control.changing hcontrol⟩
  | drops _ _ hcontrol =>
      exact .inl ⟨silent (by simp), fun _ => inFlight_of_eq (congrArg Control.changes hcontrol),
        congrArg Control.changing hcontrol⟩

theorem acceptance_of_returned (linked : y.before.Linked)
    (taken : y.before.move y.action = some (y.after, y.events)) {caller : Nat}
    {state : InstanceState} {name : String} {stage : CallerStage}
    (hcaller : y.before.callers.get? caller = some { request := .change state name, stage })
    (hreturned : .returned caller (.ok ()) ∈ y.events) :
    ∃ a, acceptance? y = some a ∧ a.caller = caller ∧ a.state = state := by
  rw [← mem_own rfl] at hreturned
  obtain ⟨before, action, after, events⟩ := y
  simp only at linked taken hcaller hreturned
  rcases serves_or_proceeds linked taken with serves | proceeds
  · generalize hown : own events = raised at serves hreturned
    cases serves with
    | @accepts _ id state' name' levels plan turn _ hfound =>
        obtain rfl : caller = id := by simpa using hreturned
        refine ⟨_, acceptance_of_change hown turn hfound, rfl, ?_⟩
        obtain ⟨stage', hcaller'⟩ := turn.caller
        have hsame := hcaller.symm.trans hcaller'
        simp only [Option.some.injEq, Caller.mk.injEq, ChangeRequest.change.injEq] at hsame
        exact hsame.1.1.symm
    | @answers _ id turn =>
        obtain rfl : caller = id := by simpa using hreturned
        obtain ⟨stage', hcaller'⟩ := turn.caller
        simp [hcaller] at hcaller'
    | _ => simp at hreturned
  · generalize own events = raised at proceeds hreturned
    cases proceeds with
    | works _ _ _ hrun => exact absurd (hrun _ hreturned) Bool.false_ne_true
    | _ => simp at hreturned

/-! ## Changes from one state to the next -/

theorem stands_of_eq {k : Nat} {c : PlanChange} (hchanges : s'.changes = s.changes)
    (hc : s.changes.get? k = some c) :
    ∃ later, s'.changes.get? k = some later ∧ c.Stands later ∧ later.stage = c.stage :=
  ⟨c, hchanges ▸ hc, .refl c, rfl⟩

theorem stands_of_serves (linked : s.Linked) (serves : Serves s s' action raised) {k : Nat}
    {c : PlanChange} (hc : s.changes.get? k = some c) :
    ∃ later, s'.changes.get? k = some later ∧ c.Stands later ∧ later.stage = c.stage := by
  cases serves with
  | asks _ hcontrol => exact stands_of_eq (congrArg Control.changes hcontrol) hc
  | refuses _ _ hcontrol => exact stands_of_eq (congrArg Control.changes hcontrol) hc
  | @accepts _ _ state _ levels plan _ _ _ hcontrol =>
      have hchanges : s'.changes = s.changes.insert s.nextId { plan, levels, state } :=
        congrArg Control.changes hcontrol
      have hk := linked.changes k c hc
      refine ⟨c, ?_, .refl c, rfl⟩
      rw [hchanges, Table.get?_insert, if_neg (Nat.ne_of_lt hk), hc]
  | @awaits _ change _ _ _ _ _ _ hcontrol =>
      have hchanges : s'.changes = s.changes.modify change (fun c => { c with cancelled := true }) :=
        congrArg Control.changes hcontrol
      rw [hchanges, Table.get?_modify]
      split
      · next hk =>
          rw [← hk, hc]
          exact ⟨_, rfl, ⟨rfl, rfl, fun _ => rfl⟩, rfl⟩
      · exact ⟨c, hc, .refl c, rfl⟩
  | joins _ _ _ hcontrol => exact stands_of_eq (congrArg Control.changes hcontrol) hc
  | answers _ _ hcontrol => exact stands_of_eq (congrArg Control.changes hcontrol) hc
  | closes _ _ hcontrol => exact stands_of_eq (congrArg Control.changes hcontrol) hc
  | drops _ _ hcontrol => exact stands_of_eq (congrArg Control.changes hcontrol) hc

theorem stands_of_proceeds (proceeds : Proceeds s s' action raised) {k : Nat} {c : PlanChange}
    (hc : s.changes.get? k = some c) :
    ∃ later, s'.changes.get? k = some later ∧ c.Stands later ∧ later.cancelled = c.cancelled ∧
      (c.stage = .ended → later.stage = .ended) := by
  have same : s'.changes = s.changes → ∃ later, s'.changes.get? k = some later ∧ c.Stands later ∧
      later.cancelled = c.cancelled ∧ (c.stage = .ended → later.stage = .ended) := by
    intro hchanges
    exact ⟨c, hchanges ▸ hc, .refl c, rfl, id⟩
  have staged : ∀ {k' d stage}, s.changes.get? k' = some d → d.stage ≠ .ended →
      s'.changes = s.changes.insert k' { d with stage } →
      ∃ later, s'.changes.get? k = some later ∧ c.Stands later ∧
        later.cancelled = c.cancelled ∧ (c.stage = .ended → later.stage = .ended) := by
    intro k' d stage hd hopen hchanges
    rw [hchanges, Table.get?_insert]
    split
    · next hk =>
        subst hk
        obtain rfl := Option.some.inj (hc.symm.trans hd)
        exact ⟨_, rfl, ⟨rfl, rfl, id⟩, rfl, fun hended => absurd hended hopen⟩
    · exact ⟨c, hc, .refl c, rfl, id⟩
  cases proceeds with
  | works _ hcontrol => exact same (congrArg Control.changes hcontrol)
  | pauses hcontrol => exact same (congrArg Control.changes hcontrol)
  | begins hd hspawned hcontrol =>
      exact staged hd (by simp [hspawned]) (congrArg Control.changes hcontrol)
  | goesOn hcontrol => exact same (congrArg Control.changes hcontrol)
  | swaps hcontrol => exact same (congrArg Control.changes hcontrol)
  | goesLive _ _ _ _ _ _ hcontrol => exact same (congrArg Control.changes hcontrol)
  | breaksOff _ _ _ _ hd happlying hcontrol =>
      exact staged hd (by simp [happlying]) (congrArg Control.changes hcontrol)
  | panics _ _ _ _ hd happlying hcontrol =>
      exact staged hd (by simp [happlying]) (congrArg Control.changes hcontrol)
  | concludes _ _ _ _ _ hd happlying hcontrol =>
      exact staged hd (by simp [happlying]) (congrArg Control.changes hcontrol)
  | reports hd hstage hcontrol =>
      exact staged hd (by simp [hstage]) (congrArg Control.changes hcontrol)
  | ends hd hstage _ hcontrol =>
      exact staged hd (by simp [hstage]) (congrArg Control.changes hcontrol)

/-! ## Which changes there are -/

structure Listed (history : History) (s : Scheduler) : Prop where
  known : ∀ a ∈ accepted history, ∃ c, s.changes.get? a.change = some c ∧ c.plan = a.plan ∧
    c.scheduled = a.scheduled
  concluded : ∀ k outcome, EndedWith history k outcome →
    ∃ c, s.changes.get? k = some c ∧ c.stage = .ended ∧ (outcome = .cancelled → c.cancelled = true)
  phase : ∃ flight preparing, Phase s flight preparing ∧
    (accepted history).map (·.change) = ended history ++ flight ∧
    begun history = ended history ++ preparing

theorem Phase.inFlight {flight preparing : List Nat} (h : Phase s flight preparing) {k : Nat}
    (hk : k ∈ flight) : s.InFlight k := by
  cases h with
  | idle => simp at hk
  | spawned hc hstage =>
      obtain rfl := List.mem_singleton.1 hk
      exact ⟨_, hc, by simp [hstage]⟩
  | begun hc _ hopen =>
      obtain rfl := List.mem_singleton.1 hk
      exact ⟨_, hc, hopen⟩

theorem Phase.stands {flight preparing : List Nat} (h : Phase s flight preparing)
    (hflight : ∀ k, s'.InFlight k → s.InFlight k)
    (hstands : ∀ k c, s.changes.get? k = some c →
      ∃ later, s'.changes.get? k = some later ∧ c.Stands later ∧ later.stage = c.stage) :
    Phase s' flight preparing := by
  cases h with
  | idle hnone => exact .idle fun k hk => hnone k (hflight k hk)
  | spawned hc hstage =>
      obtain ⟨later, hlater, -, hsame⟩ := hstands _ _ hc
      exact .spawned hlater (hsame.trans hstage)
  | begun hc hpast hopen =>
      obtain ⟨later, hlater, -, hsame⟩ := hstands _ _ hc
      exact .begun hlater (hsame ▸ hpast) (hsame ▸ hopen)

/-- While a change is in flight it is the only one. -/
theorem Phase.eq_of_spawned {flight preparing : List Nat} (h : Phase s flight preparing)
    (single : s.Single) {c : PlanChange} (hc : s.changes.get? change = some c)
    (hstage : c.stage = .spawned) : flight = [change] ∧ preparing = [] := by
  have hopen : s.InFlight change := ⟨c, hc, by simp [hstage]⟩
  cases h with
  | idle hnone => exact absurd hopen (hnone change)
  | spawned hd hdstage =>
      obtain rfl := single.single _ _ hopen ⟨_, hd, by simp [hdstage]⟩
      exact ⟨rfl, rfl⟩
  | begun hd hpast hdopen =>
      obtain rfl := single.single _ _ hopen ⟨_, hd, hdopen⟩
      obtain rfl := Option.some.inj (hc.symm.trans hd)
      exact absurd hstage hpast

theorem Phase.eq_of_begun {flight preparing : List Nat} (h : Phase s flight preparing)
    (single : s.Single) {c : PlanChange} (hc : s.changes.get? change = some c)
    (hpast : c.stage ≠ .spawned) (hopen : c.stage ≠ .ended) :
    flight = [change] ∧ preparing = [change] := by
  have hflight : s.InFlight change := ⟨c, hc, hopen⟩
  cases h with
  | idle hnone => exact absurd hflight (hnone change)
  | spawned hd hspawned =>
      obtain rfl := single.single _ _ hflight ⟨_, hd, by simp [hspawned]⟩
      obtain rfl := Option.some.inj (hc.symm.trans hd)
      exact absurd hspawned hpast
  | begun hd _ hdopen =>
      obtain rfl := single.single _ _ hflight ⟨_, hd, hdopen⟩
      exact ⟨rfl, rfl⟩

theorem Phase.eq_of_inFlight {flight preparing : List Nat} (h : Phase s flight preparing)
    (single : s.Single) (hflight : s.InFlight change) : flight = [change] := by
  obtain ⟨c, hc, hopen⟩ := hflight
  by_cases hspawned : c.stage = .spawned
  · exact (h.eq_of_spawned single hc hspawned).1
  · exact (h.eq_of_begun single hc hspawned hopen).1

theorem Serves.not_endedWith (serves : Serves s s' action raised) {k : Nat}
    {outcome : PrepareOutcome} : .changeEnded k outcome ∉ raised := by
  cases serves <;> simp

theorem Listed.serves (h : Listed history y.before) (orderly : y.before.Orderly)
    (serves : Serves y.before y.after y.action (own y.events)) :
    Listed (history ++ [y]) y.after := by
  have hstands := fun k c => stands_of_serves orderly.linked serves (k := k) (c := c)
  have hbegun : begun (history ++ [y]) = begun history := by
    rw [begun_snoc, serves.not_begun, Option.toList_none, List.append_nil]
  have hended : ended (history ++ [y]) = ended history := by
    rw [ended_snoc, serves.not_ended, List.append_nil]
  have hover : ∀ k outcome, EndedWith (history ++ [y]) k outcome →
      ∃ c, y.after.changes.get? k = some c ∧ c.stage = .ended ∧
        (outcome = .cancelled → c.cancelled = true) := by
    intro k outcome hwith
    rcases endedWith_snoc.1 hwith with hwith | hnew
    · obtain ⟨c, hc, hstage, hcancelled⟩ := h.concluded k outcome hwith
      obtain ⟨later, hlater, stands, hsame⟩ := hstands k c hc
      exact ⟨later, hlater, hsame.trans hstage, fun ho => stands.cancelled (hcancelled ho)⟩
    · exact absurd hnew serves.not_endedWith
  have hknown : ∀ a ∈ accepted history, ∃ c, y.after.changes.get? a.change = some c ∧
      c.plan = a.plan ∧ c.scheduled = a.scheduled := by
    intro a ha
    obtain ⟨c, hc, hplan, hscheduled⟩ := h.known a ha
    obtain ⟨later, hlater, stands, -⟩ := hstands a.change c hc
    exact ⟨later, hlater, stands.plan.trans hplan, stands.scheduled.trans hscheduled⟩
  obtain ⟨flight, preparing, phase, hids, hpreparing⟩ := h.phase
  rcases serves.accepted_cases with ⟨hnone, hflight, -⟩ |
    ⟨id, state, name, levels, plan, turn, hlatest, hcontrol, hsome⟩
  · have haccepted : accepted (history ++ [y]) = accepted history := by
      rw [accepted_snoc, hnone, Option.toList_none, List.append_nil]
    refine ⟨haccepted ▸ hknown, hover, flight, preparing, phase.stands hflight hstands, ?_, ?_⟩
    · rw [haccepted, hended, hids]
    · rw [hbegun, hended, hpreparing]
  · have hchanges : y.after.changes =
        y.before.changes.insert y.before.nextId { plan, levels, state } :=
      congrArg Control.changes hcontrol
    have hnew : y.after.changes.get? y.before.nextId = some { plan, levels, state } := by
      rw [hchanges, Table.get?_insert_self]
    have hidle : flight = [] ∧ preparing = [] := by
      cases phase with
      | idle => exact ⟨rfl, rfl⟩
      | spawned hc hstage =>
          exact absurd ⟨_, hc, by simp [hstage]⟩ (orderly.idle_of_turn turn hlatest)
      | begun hc _ hopen => exact absurd ⟨_, hc, hopen⟩ (orderly.idle_of_turn turn hlatest)
    obtain ⟨rfl, rfl⟩ := hidle
    refine ⟨?_, hover, [y.before.nextId], [], .spawned hnew rfl, ?_, ?_⟩
    · intro a ha
      rw [accepted_snoc, hsome, Option.toList_some] at ha
      rcases List.mem_append.1 ha with ha | ha
      · exact hknown a ha
      · obtain rfl := List.mem_singleton.1 ha
        exact ⟨_, hnew, rfl, rfl⟩
    · rw [accepted_snoc, hsome, hended, List.map_append, hids, List.append_nil]
      rfl
    · rw [hbegun, hended, hpreparing]

/-- A step of a task that neither begins nor ends a change. -/
theorem Listed.quiet (h : Listed history y.before)
    (proceeds : Proceeds y.before y.after y.action (own y.events))
    (hchanges : y.after.changes = y.before.changes) (hbegun : begun? y = none)
    (hended : (own y.events).filterMap ended? = []) : Listed (history ++ [y]) y.after := by
  have haccepted : accepted (history ++ [y]) = accepted history := by
    rw [accepted_snoc, proceeds.not_accepted, Option.toList_none, List.append_nil]
  have hbegun : begun (history ++ [y]) = begun history := by
    rw [begun_snoc, hbegun, Option.toList_none, List.append_nil]
  have hsame : ended (history ++ [y]) = ended history := by
    rw [ended_snoc, hended, List.append_nil]
  refine ⟨?_, fun k outcome hwith => ?_, ?_⟩
  · rw [haccepted, hchanges]
    exact h.known
  · rw [hchanges]
    rcases endedWith_snoc.1 hwith with hwith | hnew
    · exact h.concluded k outcome hwith
    · have hmem := List.mem_filterMap.2 ⟨_, hnew, (rfl : ended? (.changeEnded k outcome) = some k)⟩
      simp [hended] at hmem
  · obtain ⟨flight, preparing, phase, hids, hpreparing⟩ := h.phase
    rw [haccepted, hbegun, hsame]
    refine ⟨flight, preparing, phase.stands (fun _ => inFlight_of_eq hchanges) ?_, hids, hpreparing⟩
    exact fun k c hc => stands_of_eq hchanges hc

theorem Listed.known_proceeds (h : Listed history y.before)
    (proceeds : Proceeds y.before y.after y.action (own y.events)) :
    ∀ a ∈ accepted (history ++ [y]), ∃ c, y.after.changes.get? a.change = some c ∧
      c.plan = a.plan ∧ c.scheduled = a.scheduled := by
  rw [accepted_snoc, proceeds.not_accepted, Option.toList_none, List.append_nil]
  intro a ha
  obtain ⟨c, hc, hplan, hscheduled⟩ := h.known a ha
  obtain ⟨later, hlater, stands, -⟩ := stands_of_proceeds proceeds hc
  exact ⟨later, hlater, stands.plan.trans hplan, stands.scheduled.trans hscheduled⟩

theorem Listed.over_proceeds (h : Listed history y.before)
    (proceeds : Proceeds y.before y.after y.action raised) {k : Nat} {outcome : PrepareOutcome}
    (hwith : EndedWith history k outcome) : ∃ c, y.after.changes.get? k = some c ∧
      c.stage = .ended ∧ (outcome = .cancelled → c.cancelled = true) := by
  obtain ⟨c, hc, hstage, hcancelled⟩ := h.concluded k outcome hwith
  obtain ⟨later, hlater, stands, -, hover⟩ := stands_of_proceeds proceeds hc
  exact ⟨later, hlater, hover hstage, fun ho => stands.cancelled (hcancelled ho)⟩

theorem Listed.begins (h : Listed history y.before) (orderly : y.before.Orderly)
    (proceeds : Proceeds y.before y.after y.action (own y.events)) {c : PlanChange}
    (hc : y.before.changes.get? change = some c) (hspawned : c.stage = .spawned)
    (haction : y.action = .act (.beginChange change)) (hown : own y.events = [])
    (hchanges : y.after.changes = y.before.changes.insert change { c with stage := .applying id }) :
    Listed (history ++ [y]) y.after := by
  refine ⟨h.known_proceeds proceeds, fun k outcome hwith => ?_, ?_⟩
  · rcases endedWith_snoc.1 hwith with hwith | hnew
    · exact h.over_proceeds proceeds hwith
    · simp [hown] at hnew
  · obtain ⟨flight, preparing, phase, hids, hpreparing⟩ := h.phase
    obtain ⟨rfl, rfl⟩ := phase.eq_of_spawned orderly.toSingle hc hspawned
    have hlater : y.after.changes.get? change = some { c with stage := .applying id } := by
      rw [hchanges, Table.get?_insert_self]
    have hbegun : begun? y = some change := by simp [begun?, haction]
    refine ⟨[change], [change], .begun hlater (by simp) (by simp), ?_, ?_⟩
    · rw [accepted_snoc, proceeds.not_accepted, ended_snoc, hown, Option.toList_none,
        List.append_nil, hids]
      simp
    · rw [begun_snoc, hbegun, ended_snoc, hown, hpreparing]
      simp

/-- The task of a change goes on. -/
theorem Listed.goesOn (h : Listed history y.before) (orderly : y.before.Orderly)
    (proceeds : Proceeds y.before y.after y.action (own y.events)) {c : PlanChange}
    {stage : ChangeStage} (hc : y.before.changes.get? change = some c)
    (hpast : c.stage ≠ .spawned) (hopen : c.stage ≠ .ended) (hstage : stage ≠ .spawned)
    (hstage' : stage ≠ .ended) (hbegun : begun? y = none) (hown : own y.events = [])
    (hchanges : y.after.changes = y.before.changes.insert change { c with stage }) :
    Listed (history ++ [y]) y.after := by
  refine ⟨h.known_proceeds proceeds, fun k outcome hwith => ?_, ?_⟩
  · rcases endedWith_snoc.1 hwith with hwith | hnew
    · exact h.over_proceeds proceeds hwith
    · simp [hown] at hnew
  · obtain ⟨flight, preparing, phase, hids, hpreparing⟩ := h.phase
    obtain ⟨rfl, rfl⟩ := phase.eq_of_begun orderly.toSingle hc hpast hopen
    have hlater : y.after.changes.get? change = some { c with stage } := by
      rw [hchanges, Table.get?_insert_self]
    refine ⟨[change], [change], .begun hlater hstage hstage', ?_, ?_⟩
    · rw [accepted_snoc, proceeds.not_accepted, ended_snoc, hown, Option.toList_none,
        List.append_nil, hids]
      simp
    · rw [begun_snoc, hbegun, ended_snoc, hown, hpreparing]
      simp

theorem Listed.ends (h : Listed history y.before) (orderly : y.before.Orderly)
    (proceeds : Proceeds y.before y.after y.action (own y.events)) {c : PlanChange}
    (hc : y.before.changes.get? change = some c) (hpast : c.stage ≠ .spawned)
    (hopen : c.stage ≠ .ended) (outcome : PrepareOutcome)
    (hcancelled : outcome = .cancelled → c.cancelled = true)
    (hbegun : begun? y = none) (hown : (own y.events).filterMap ended? = [change])
    (honly : ∀ k outcome', .changeEnded k outcome' ∈ own y.events → k = change ∧ outcome' = outcome)
    (hchanges : y.after.changes = y.before.changes.insert change { c with stage := .ended }) :
    Listed (history ++ [y]) y.after := by
  have hlater : y.after.changes.get? change = some { c with stage := .ended } := by
    rw [hchanges, Table.get?_insert_self]
  refine ⟨h.known_proceeds proceeds, fun k outcome' hwith => ?_, ?_⟩
  · rcases endedWith_snoc.1 hwith with hwith | hnew
    · exact h.over_proceeds proceeds hwith
    · obtain ⟨rfl, rfl⟩ := honly k outcome' hnew
      exact ⟨_, hlater, rfl, hcancelled⟩
  · obtain ⟨flight, preparing, phase, hids, hpreparing⟩ := h.phase
    obtain ⟨rfl, rfl⟩ := phase.eq_of_begun orderly.toSingle hc hpast hopen
    refine ⟨[], [], .idle fun k hk => ?_, ?_, ?_⟩
    · obtain ⟨hflight, hne⟩ := inFlight_of_insert hc hopen hchanges hk
      exact hne rfl (orderly.single k change hflight ⟨c, hc, hopen⟩)
    · rw [accepted_snoc, proceeds.not_accepted, ended_snoc, hown, Option.toList_none,
        List.append_nil, hids, List.append_nil]
    · rw [begun_snoc, hbegun, ended_snoc, hown, Option.toList_none, List.append_nil, hpreparing,
        List.append_nil]

theorem Listed.proceeds (h : Listed history y.before) (orderly : y.before.Orderly)
    (proceeds : Proceeds y.before y.after y.action (own y.events)) :
    Listed (history ++ [y]) y.after := by
  have proceeds' := proceeds
  obtain ⟨before, action, after, events⟩ := y
  simp only at proceeds' orderly
  generalize hown : own events = raised at proceeds'
  cases proceeds' with
  | works hwork hcontrol _ hrun =>
      refine h.quiet proceeds (congrArg Control.changes hcontrol) ?_ ?_
      · cases action with
        | post line => rfl
        | act action => cases action <;> first | rfl | contradiction
      · refine List.filterMap_eq_nil_iff.2 fun event hevent => ?_
        have hrun := hrun event (hown ▸ hevent)
        cases event <;> first | rfl | contradiction
  | pauses hcontrol =>
      exact h.quiet proceeds (congrArg Control.changes hcontrol) rfl (by simp [hown])
  | begins hc hspawned hcontrol =>
      exact h.begins orderly proceeds hc hspawned rfl hown (congrArg Control.changes hcontrol)
  | goesOn hcontrol =>
      exact h.quiet proceeds (congrArg Control.changes hcontrol) rfl (by simp [hown])
  | swaps hcontrol =>
      exact h.quiet proceeds (congrArg Control.changes hcontrol) rfl (by simp [hown])
  | goesLive _ _ _ _ _ _ hcontrol =>
      exact h.quiet proceeds (congrArg Control.changes hcontrol) rfl (by simp [hown, ended?])
  | breaksOff _ _ _ _ hc happlying hcontrol =>
      exact h.ends orderly proceeds hc (by simp [happlying]) (by simp [happlying]) .panicked
        (by simp) rfl (by rw [hown]; rfl) (by simp [hown]) (congrArg Control.changes hcontrol)
  | panics _ _ _ _ hc happlying hcontrol =>
      exact h.ends orderly proceeds hc (by simp [happlying]) (by simp [happlying]) .panicked
        (by simp) rfl (by rw [hown]; rfl) (by simp [hown]) (congrArg Control.changes hcontrol)
  | concludes _ _ _ _ _ hc happlying hcontrol =>
      exact h.goesOn orderly proceeds hc (by simp [happlying]) (by simp [happlying]) (by simp)
        (by simp) rfl hown (congrArg Control.changes hcontrol)
  | reports hc hstage hcontrol =>
      exact h.goesOn orderly proceeds hc (by simp [hstage]) (by simp [hstage]) (by simp)
        (by simp) rfl hown (congrArg Control.changes hcontrol)
  | @ends _ outcome _ hc hstage _ hcontrol =>
      refine h.ends orderly proceeds hc (by simp [hstage]) (by simp [hstage]) outcome
        (fun houtcome => ?_) rfl (by simp [hown, ended?]) (by simp [hown])
        (congrArg Control.changes hcontrol)
      subst houtcome
      exact (orderly.linked.finishing _ _ _ _ hc hstage).2 rfl

end Scheduler

end Cadence
