import Cadence.Proofs.Plan.Fetching
import Cadence.Proofs.Scheduler.Sparing

/-!
# Plans that cannot be found

Whoever asks for a plan is turned away exactly if nothing was loaded under the
name, since whatever was loaded can be sorted.  The refusal is made in passing:
while the caller has the lock nothing else happens, and nothing is touched.  So
all others fare as if the call had not been made, also a change that is in
flight at the time.
-/

namespace Cadence

namespace PlanStore

variable {reader : Reader} {steps : Loads} {last : PlanStore} {plan : Plan} {name : String}
  {e : PlanError}

/-- No plan was loaded under the name, or none at all if it is the empty one. -/
def Unloaded (steps : Loads) (name : String) : Prop :=
  name ≠ "" ∧ (∀ plan, ¬ LoadedUnder steps name plan) ∨ name = "" ∧ loaded steps = []

/-- What whoever asks for a plan that is not loaded is told. -/
def refusal (name : String) : PlanError := if name = "" then .noPlans else .unknownPlan name

theorem find_eq_error_iff (run : Run (serve reader) ∅ steps last) :
    last.find name = .error e ↔ Unloaded steps name ∧ e = refusal name := by
  have holds := holds_of_run run
  rw [holds.find, Unloaded, refusal]
  by_cases hname : name = ""
  · cases hloaded : loaded steps <;> simp [hname, eq_comm]
  · have hunloaded : (∀ plan, ¬ LoadedUnder steps name plan) ↔
        (loaded steps).find? (·.name = name) = none := by
      simp only [← get?_iff_loadedUnder run, holds.get?, Option.eq_none_iff_forall_ne_some, ne_eq]
    simp only [hname, hunloaded, if_false, ne_eq, not_false_eq_true, true_and, false_and, or_false]
    cases (loaded steps).find? (·.name = name) <;> simp [eq_comm]

/-- Sorting checks nothing that was not checked when the plan was loaded. -/
theorem sort_of_loaded (run : Run (serve reader) ∅ steps last) (hplan : plan ∈ loaded steps) :
    ∃ sorted, plan.sort = .ok sorted :=
  ⟨_, Plan.sort_eq_ok_iff.2 ⟨((holds_of_run run).sound plan hplan).valid, rfl, rfl⟩⟩

theorem loaded_of_find (run : Run (serve reader) ∅ steps last) (found : last.find name = .ok plan) :
    plan ∈ loaded steps := by
  rw [(holds_of_run run).find] at found
  split at found
  · cases hfirst : (loaded steps).head? with
    | none => simp [hfirst] at found
    | some first =>
        obtain rfl : first = plan := by simpa [hfirst] using found
        exact List.mem_of_head? hfirst
  · cases hlisted : (loaded steps).find? (·.name = name) with
    | none => simp [hlisted] at found
    | some other =>
        obtain rfl : other = plan := by simpa [hlisted] using found
        exact List.mem_of_find?_eq_some hlisted

end PlanStore

namespace Scheduler

open PlanStore (Unloaded refusal Loads)

variable {reader : PlanStore.Reader} {loads : Loads} {store : PlanStore} {s s' : Scheduler}
  {history : History} {start last : Scheduler} {name : String} {e : PlanError}
  {y : Step Scheduler Move SchedulerEvent}

theorem findSorted_eq_error_iff (filled : Run (PlanStore.serve reader) ∅ loads store)
    (hstore : s.store = store) :
    s.findSorted name = .error e ↔ Unloaded loads name ∧ e = refusal name := by
  rw [← PlanStore.find_eq_error_iff filled, findSorted, hstore]
  cases hfound : store.find name with
  | error e' => simp [Except.bind]
  | ok plan =>
      obtain ⟨sorted, hsorted⟩ := PlanStore.sort_of_loaded filled (PlanStore.loaded_of_find filled hfound)
      simp [Except.bind, hsorted]

theorem fixed_throughout (run : Run move start history last) : Fixed start last :=
  run.invariant (.refl start) fun taken hfixed => hfixed.trans (fixed_of_move taken)

theorem fixed_before (run : Run move start history last) (hy : y ∈ history) :
    Fixed start y.before ∧ y.before.move y.action = some (y.after, y.events) :=
  run.invariant_before (.refl start) (fun taken hfixed => hfixed.trans (fixed_of_move taken)) hy

/-- The caller has asked for a plan that is not loaded. -/
def AskedInVain (loads : Loads) (history : History) (id : Nat) : Prop :=
  ∃ y ∈ history, ∃ state name, y.action = .act (.call (.change state name)) ∧
    y.before.nextId = id ∧ Unloaded loads name

/-- Nobody else gets the numbers of those who ask in vain. -/
theorem fits_of_askedInVain (filled : Run (PlanStore.serve reader) ∅ loads start.store)
    (run : Run move start history last) {omitted : List Nat}
    (vain : ∀ id ∈ omitted, AskedInVain loads history id) :
    ∀ y ∈ history, Fits ⟨omitted⟩ y := by
  intro y hy hgrows hnew
  obtain ⟨x, hx, state, name, haction, hnextId, unloaded⟩ := vain _ (Classical.not_not.1 hnew)
  have hgrows' : x.before.nextId < x.after.nextId := by
    have taken := (fixed_before run hx).2
    rw [haction] at taken
    change x.before.step (.call (.change state name)) = _ at taken
    obtain ⟨-, hnext⟩ := call_eq_some taken
    rw [(Prod.mk.inj hnext).1]
    exact Nat.lt_succ_self _
  obtain rfl := run.eq_of_grows (fun taken => (moved taken).nextId) hx hy hgrows' hgrows hnextId.symm
  exact ⟨state, name, _, haction,
    (findSorted_eq_error_iff filled (fixed_before run hy).1.store).2 ⟨unloaded, rfl⟩⟩

/-- What becomes of those who ask for plans that are not loaded. -/
structure RefusesInPassing (loads : Loads) (start : Scheduler) (history : History)
    (last : Scheduler) : Prop where
  sorts : ∀ plan ∈ PlanStore.loaded loads, ∃ sorted, plan.sort = .ok sorted
  /-- A call for a plan ends with an error exactly if the plan is not loaded. -/
  answers : ∀ y ∈ history, ∀ id result state name stage, .returned id result ∈ y.events →
    y.before.callers.get? id = some { request := .change state name, stage } →
    ∀ e, result = .error e ↔ Unloaded loads name ∧ e = refusal name
  /-- It does so as soon as its turn comes, and has waited for no change before. -/
  refuses : ∀ id state name, last.lock.head? = some id →
    last.callers.get? id = some { request := .change state name, stage := .queued } →
    Unloaded loads name →
    last.move (.act (.grant id)) = some (last.release id, [.returned id (.error (refusal name))])
  waits : ∀ id state name change, last.Awaits id (.change state name) change →
    ¬ Unloaded loads name
  /-- On its way it touches nothing but the queue, and there is no event but its error. -/
  untouched : ∀ id, AskedInVain loads history id → ∀ y ∈ history,
    y.before.caller? y.action = some id →
    SameButCallers y.before y.after ∧ ∀ event ∈ y.events, ∃ e, event = .returned id (.error e)
  /-- What all others do, and what comes of it, is a run without those calls as well. -/
  unmade : ∀ omitted : List Nat, (∀ id ∈ omitted, AskedInVain loads history id) →
    Run move start (history.filterMap (spareStep? ⟨omitted⟩)) (last.spare ⟨omitted⟩)

theorem answer_of_returned (linked : y.before.Linked)
    (taken : y.before.move y.action = some (y.after, y.events)) {id : Nat}
    {result : Except PlanError Unit} {state : InstanceState} {stage : CallerStage}
    (hreturned : .returned id result ∈ y.events)
    (hcaller : y.before.callers.get? id = some { request := .change state name, stage }) :
    result = .error e ↔ y.before.findSorted name = .error e := by
  have asked : ∀ {request : ChangeRequest}, y.before.Turn id request y.action →
      request = .change state name := by
    intro request turn
    obtain ⟨stage', hasking⟩ := turn.caller
    exact congrArg Caller.request (Option.some.inj (hasking.symm.trans hcaller))
  rw [← mem_own rfl] at hreturned
  rcases serves_or_proceeds linked taken with serves | proceeds
  · generalize own y.events = raised at serves hreturned
    generalize y.action = action at serves asked
    cases serves with
    | refuses turn hfound =>
        obtain ⟨rfl, rfl⟩ : id = _ ∧ result = _ := by simpa using hreturned
        obtain ⟨⟩ := asked turn
        simp [hfound]
    | accepts turn _ hfound =>
        obtain ⟨rfl, rfl⟩ : id = _ ∧ result = _ := by simpa using hreturned
        obtain ⟨⟩ := asked turn
        simp [hfound]
    | answers turn =>
        obtain ⟨rfl, rfl⟩ : id = _ ∧ result = _ := by simpa using hreturned
        obtain ⟨⟩ := asked turn
    | _ => simp at hreturned
  · generalize own y.events = raised at proceeds hreturned
    generalize y.action = action at proceeds
    cases proceeds with
    | works _ _ _ hrun => exact absurd (hrun _ hreturned) Bool.false_ne_true
    | _ => simp at hreturned

/-- However a store was filled and whatever is in flight, a call for a plan that is not loaded comes
to its error and to nothing else, and no other call for a plan fails. -/
theorem refused_in_passing (filled : Run (PlanStore.serve reader) ∅ loads store)
    {settings : SchedulerSettings} {engine : EngineSettings} {board : Board} {sinks : List String}
    (run : Run move (create settings (.create engine board) store sinks) history last) :
    RefusesInPassing loads (create settings (.create engine board) store sinks) history last := by
  have found : ∀ {s : Scheduler} {name e}, s.store = store →
      (s.findSorted name = .error e ↔ Unloaded loads name ∧ e = refusal name) :=
    findSorted_eq_error_iff filled
  refine ⟨fun plan => PlanStore.sort_of_loaded filled,
    fun y hy id result state name stage hreturned hcaller e => ?_,
    fun id state name hhead hcaller unloaded => ?_, fun id state name change awaits unloaded => ?_,
    fun id vain y hy hcaller => ?_, fun omitted vain => ?_⟩
  · obtain ⟨hfixed, taken⟩ := fixed_before run hy
    have linked := (run.invariant_before (linked_create ..) (fun taken h => h.move taken) hy).1
    rw [answer_of_returned linked taken hreturned hcaller, found hfixed.store]
  · have hfound := (found (fixed_throughout run).store).2 ⟨unloaded, rfl⟩
    change last.grant id = _
    simp only [grant, if_pos hhead, Table.getElem?_eq_get?, hcaller, hfound, returns]
  · obtain ⟨sorted, hsorted⟩ := (queued_of_run run).found id state name change awaits
    have hfound := (found (fixed_throughout run).store).2 ⟨unloaded, rfl⟩
    simp [hsorted] at hfound
  · obtain ⟨earlier, later, rfl⟩ := List.append_of_mem hy
    obtain ⟨before, taken, -⟩ := run.taken
    have fits := fits_of_askedInVain filled run (List.forall_mem_singleton.2 vain)
    obtain ⟨kept, queued, -⟩ := run_spare before (fun z hz => fits z (List.mem_append_left _ hz))
      (kept_create ..) (linked_create ..) (orderly_create ..).toQueued
    exact (spare_of_omitted kept queued taken hcaller (by simp [Renumbering.Keeps])).2
  · have hrun := (run_spare run (fits_of_askedInVain filled run vain) (kept_create ..)
      (linked_create ..) (orderly_create ..).toQueued).2.2
    rwa [spare_create] at hrun

def onePlan : Loads × PlanStore :=
  Run.follow (PlanStore.serve Plan.levelsOfYaml?) ∅ [.text "p" "inline" "kpi:\n  freq: 1s\n"]

/-- While a change is prepared somebody asks for a plan that is not loaded, and somebody else comes
to wait. -/
def askingInVain : List Move :=
  [.act (.call (.change .active "p")), .act (.grant 0), .act (.beginChange 1),
    .act (.call (.change .standby "q")), .act (.engine (.pinged 0 .answered)), .act (.call .wait),
    .act (.grant 2), .act (.grant 3), .act (.engine (.copyLive 0)), .act (.engine (.conclude 0)),
    .act (.engine (.swap 0 .all)), .act (.engine (.cleanUp 0 none)), .act (.engine (.prune 0)),
    .act (.reportChange 1), .act (.endChange 1), .act (.resume 3)]

def askingInVainRun : History × Scheduler :=
  Run.follow move (create {} (.create {} ∅) onePlan.2 []) askingInVain

theorem refused_in_passing_unknown :
    Run (PlanStore.serve Plan.levelsOfYaml?) ∅ onePlan.1 onePlan.2 ∧
      Run move (create {} (.create {} ∅) onePlan.2 []) askingInVainRun.1 askingInVainRun.2 ∧
      AskedInVain onePlan.1 askingInVainRun.1 2 ∧
      (∃ y ∈ askingInVainRun.1, y.events = [.returned 2 (.error (.unknownPlan "q"))] ∧
        y.before.InFlight 1 ∧ y.after.engine = y.before.engine ∧
        y.after.changes = y.before.changes) ∧
      (∃ y ∈ askingInVainRun.1, .changeEnded 1 .ready ∈ y.events) ∧
      ∃ history last, Run move (create {} (.create {} ∅) onePlan.2 []) history last ∧
        history.map (·.action) =
          [.act (.call (.change .active "p")), .act (.grant 0), .act (.beginChange 1),
            .act (.engine (.pinged 0 .answered)), .act (.call .wait), .act (.grant 2),
            .act (.engine (.copyLive 0)), .act (.engine (.conclude 0)),
            .act (.engine (.swap 0 .all)), .act (.engine (.cleanUp 0 none)),
            .act (.engine (.prune 0)), .act (.reportChange 1), .act (.endChange 1),
            .act (.resume 2)] ∧
        (∃ y ∈ history, .changeEnded 1 .ready ∈ y.events) ∧
        last.active = askingInVainRun.2.active := by
  have filled : Run (PlanStore.serve Plan.levelsOfYaml?) ∅ onePlan.1 onePlan.2 := Run.of_follow ..
  have hrun : Run move (create {} (.create {} ∅) onePlan.2 []) askingInVainRun.1
      askingInVainRun.2 := Run.of_follow ..
  have unloaded : Unloaded onePlan.1 "q" := by
    refine .inl ⟨by decide, fun plan hloaded => ?_⟩
    have hnone : onePlan.2.plans.get? "q" = none := by decide +kernel
    simp [(PlanStore.get?_iff_loadedUnder filled).2 hloaded] at hnone
  have hasked : ∃ y ∈ askingInVainRun.1,
      y.action = .act (.call (.change .standby "q")) ∧ y.before.nextId = 2 := by decide +kernel
  have hrefused : ∃ y ∈ askingInVainRun.1, y.events = [.returned 2 (.error (.unknownPlan "q"))] ∧
      (y.before.changes.get? 1).map (·.stage) = some (.applying 0) ∧
      y.before.caller? y.action = some 2 := by decide +kernel
  have hended : ∃ y ∈ askingInVainRun.1, .changeEnded 1 .ready ∈ y.events := by decide +kernel
  have vain : AskedInVain onePlan.1 askingInVainRun.1 2 := by
    obtain ⟨y, hy, haction, hnextId⟩ := hasked
    exact ⟨y, hy, _, _, haction, hnextId, unloaded⟩
  have refuses := refused_in_passing filled hrun
  have hactive : ∀ (ρ : Renumbering) (s : Scheduler), (s.spare ρ).active = s.active :=
    fun _ _ => rfl
  refine ⟨filled, hrun, vain, ?_, hended, _, _, refuses.unmade [2] (by simpa using vain), ?_, ?_,
    hactive _ _⟩
  · obtain ⟨y, hy, hevents, hstage, hcaller⟩ := hrefused
    obtain ⟨c, hc, happlying⟩ := Option.map_eq_some_iff.1 hstage
    obtain ⟨hafter, -⟩ := refuses.untouched 2 vain y hy hcaller
    exact ⟨y, hy, hevents, inFlight_of_applying hc happlying, by rw [hafter], by rw [hafter]⟩
  · decide +kernel
  · decide +kernel

end Scheduler

end Cadence
