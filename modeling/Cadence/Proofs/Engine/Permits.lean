import Cadence.Proofs.Engine.Reports

/-!
# The permits of a round

The tasks of a round share as many permits as domains may be collected at once.
A task takes one when its collector is called and gives it back however the call
ends.  At every moment the permits of a round are free or with its collectors at
work, and the free ones are those that the takes and returns of its history leave.
-/

namespace Cadence

inductive PermitUse where
  | take
  | giveBack
  deriving DecidableEq

namespace PermitUse

/-- What a use of a counting semaphore makes of the free permits; nobody takes what is not there. -/
def apply : Nat → PermitUse → Option Nat
  | 0, take => none
  | free + 1, take => some free
  | free, giveBack => some (free + 1)

/-- The permits that are free after these uses, if none of them was without one. -/
def free? (limit : Nat) (uses : List PermitUse) : Option Nat := uses.foldlM apply limit

theorem free?_snoc {limit free : Nat} {uses : List PermitUse} (h : free? limit uses = some free)
    (use : Option PermitUse) :
    free? limit (uses ++ use.toList) = (use.map (apply free)).getD (some free) := by
  rw [free?] at h
  rw [free?, List.foldlM_append, h]
  cases use with
  | none => rfl
  | some use => exact bind_pure (apply free use)

end PermitUse

theorem RoundStage.eq_collecting {stage : RoundStage} (hopen : stage.isQueued = false) :
    ∃ plan began tasks, stage = .collecting plan began tasks := by
  cases stage with
  | queued => contradiction
  | collecting plan began tasks => exact ⟨plan, began, tasks, rfl⟩

/-- How many collectors of a round are at work. -/
def EngineRound.atWork (r : EngineRound) : Nat :=
  match r.stage with
  | .queued => 0
  | .collecting _ _ tasks => tasks.values.countP RoundTask.isCollecting

/-- The action with which the task of a domain that is collecting ends in this way. -/
def EngineAction.ending (id : Nat) (domain : String) : CollectResult → EngineAction
  | .died => .loseTask id domain
  | result => .finishTask id domain result

namespace Engine

/-- What a step does to the permits of a round.  A lost task has one to give back only if its
collector had been called. -/
def permitUse? (id : Nat) (x : Step Engine EngineAction EngineEvent) : Option PermitUse :=
  match x.action with
  | .startTask k _ => if k = id then some .take else none
  | .finishTask k _ _ => if k = id then some .giveBack else none
  | .loseTask k d =>
      if k = id ∧ (x.before.task? id d).any RoundTask.isCollecting then some .giveBack else none
  | _ => none

section

variable (id : Nat) (history : List (Step Engine EngineAction EngineEvent))

def permitUses : List PermitUse := history.filterMap (permitUse? id)

/-- The domains of a level whose collectors a round has called and is waiting for. -/
def inProgress (live : LiveState) (level : String) : List String :=
  (live.asked level).keys.filter (fun d => calls id d history ≠ 0 ∧ outcomes id d history = [])

end

/-- How many collectors of a round are at work. -/
def busy (e : Engine) (id : Nat) : Nat := (e.rounds.get? id).elim 0 EngineRound.atWork

variable {e e' : Engine} {id : Nat} {action : EngineAction} {events : List EngineEvent}
variable {history : List (Step Engine EngineAction EngineEvent)}
variable {x : Step Engine EngineAction EngineEvent}

theorem permitUses_snoc :
    permitUses id (history ++ [x]) = permitUses id history ++ (permitUse? id x).toList := by
  rw [permitUses, List.filterMap_append, permitUses]
  cases hx : permitUse? id x <;> simp [hx]

theorem permitUse?_of_not (hother : ∀ d, x.action.isOfTask id d = false) :
    permitUse? id x = none := by
  obtain ⟨before, action, after, events⟩ := x
  cases action <;> simp_all [permitUse?, EngineAction.isOfTask]

/-! ## What a step does to the permits -/

/-- What becomes of the permits of a round that is there after the step. -/
inductive PermitMove (e : Engine) (id : Nat) (use : Option PermitUse) (later : EngineRound) : Prop
  | begins : id = e.nextId → use = none → later.stage.isQueued = true → PermitMove e id use later
  | enters {r : EngineRound} : e.rounds.get? id = some r → r.stage.isQueued = true → use = none →
      later.permits = e.settings.concurrency → later.atWork = 0 → PermitMove e id use later
  | goesOn {r : EngineRound} : e.rounds.get? id = some r →
      later.stage.isQueued = r.stage.isQueued → (later.stage.isQueued = true → use = none) →
      (use.map (PermitUse.apply r.permits)).getD (some r.permits) = some later.permits →
      later.permits + later.atWork = r.permits + r.atWork → PermitMove e id use later

section

variable {r later : EngineRound}

theorem PermitMove.unmoved (hr : e.rounds.get? id = some later) : PermitMove e id none later :=
  .goesOn hr rfl (fun _ => rfl) rfl rfl

/-- A task that starts to collect takes a permit, one that leaves off gives its own back, and all
others stay where they are. -/
theorem permitMove_of_insert {k : Nat} {plan : String} {began : Utc}
    {tasks : Table String RoundTask} {d : String} {t t' : RoundTask} {permits : Nat}
    {use : Option PermitUse} (hr : e.rounds.get? k = some r)
    (hstage : r.stage = .collecting plan began tasks) (ht : tasks.get? d = some t)
    (hlater : (e.setRound k { r with
      stage := .collecting plan began (tasks.insert d t'), permits }).rounds.get? id = some later)
    (other : k ≠ id → use = none)
    (own : k = id →
      (use.map (PermitUse.apply r.permits)).getD (some r.permits) = some permits ∧
        permits + (if t'.isCollecting then 1 else 0) =
          r.permits + (if t.isCollecting then 1 else 0)) :
    PermitMove e id use later := by
  rw [setRound, Table.get?_insert] at hlater
  split at hlater
  · next hid =>
      obtain ⟨huse, hsum⟩ := own hid.symm
      have hcount := Table.countP_values_insert ht t' RoundTask.isCollecting
      obtain rfl := Option.some.inj hlater
      refine .goesOn (hid ▸ hr) (by simp [hstage, RoundStage.isQueued])
        (by simp [RoundStage.isQueued]) huse ?_
      simp only [EngineRound.atWork, hstage]
      omega
  · next hid =>
      rw [other (Ne.symm hid)]
      exact .unmoved hlater

theorem permitMove_of_step (taken : e.step action = some (e', events))
    (hlater : e'.rounds.get? id = some later) :
    PermitMove e id (permitUse? id ⟨e, action, e', events⟩) later := by
  cases hkind : action.isOfRound with
  | false =>
      rw [(preparing_frame hkind taken).rounds] at hlater
      cases action <;> first | exact .unmoved hlater | contradiction
  | true =>
    cases action with
    | beginCollect level =>
        cases taken
        change (e.rounds.insert e.nextId { level }).get? id = some later at hlater
        rw [Table.get?_insert] at hlater
        split at hlater
        · next hid =>
            obtain rfl := Option.some.inj hlater
            exact .begins hid rfl rfl
        · exact .unmoved hlater
    | enter k now =>
        obtain ⟨r, hr, hqueued, -, ⟨-, hnext⟩ | ⟨-, hnext⟩⟩ := enter_eq_some taken
        · cases hnext
          exact .unmoved (Table.get?_of_get?_erase hlater)
        · cases hnext
          change (e.rounds.insert k _).get? id = some later at hlater
          rw [Table.get?_insert] at hlater
          split at hlater
          · next hid =>
              obtain rfl := Option.some.inj hlater
              refine .enters (hid ▸ hr) (by simp [hqueued, RoundStage.isQueued]) rfl rfl ?_
              simp [EngineRound.atWork, Table.values_map, List.countP_map, RoundTask.isCollecting]
          · exact .unmoved hlater
    | startTask k d =>
        obtain ⟨r, plan, began, tasks, t, hr, hstage, ht, hwaiting, hfree, hnext⟩ :=
          startTask_eq_some taken
        cases hnext
        refine permitMove_of_insert hr hstage ht hlater (fun hid => by simp [permitUse?, hid]) ?_
        rintro rfl
        obtain ⟨free, hpermits⟩ := Nat.exists_eq_succ_of_ne_zero (Nat.ne_of_gt hfree)
        simp [permitUse?, PermitUse.apply, hpermits, RoundTask.isCollecting, hwaiting]
    | finishTask k d result =>
        obtain ⟨r, plan, began, tasks, t, hr, hstage, ht, hcollecting, -, hnext⟩ :=
          finishTask_eq_some taken
        cases hnext
        refine permitMove_of_insert hr hstage ht hlater (fun hid => by simp [permitUse?, hid]) ?_
        rintro rfl
        cases hpermits : r.permits <;>
          simp [permitUse?, PermitUse.apply, RoundTask.isCollecting, hcollecting]
    | loseTask k d =>
        obtain ⟨r, plan, began, tasks, t, hr, hstage, ht, -, hnext⟩ := loseTask_eq_some taken
        cases hnext
        refine permitMove_of_insert hr hstage ht hlater (fun hid => by simp [permitUse?, hid]) ?_
        rintro rfl
        have htask : e.task? k d = some t := (task?_eq_get? hr hstage d).trans ht
        have hdead : ({ t with stage := .finished .died } : RoundTask).isCollecting = false := rfl
        -- a task that waits for its permit is lost without one
        cases hcollecting : t.isCollecting <;> cases hpermits : r.permits <;>
          simp [permitUse?, PermitUse.apply, htask, hcollecting, hdead]
    | close k now =>
        obtain ⟨r, plan, began, tasks, -, -, -, hnext⟩ := close_eq_some taken
        cases hnext
        rw [record_rounds] at hlater
        exact .unmoved (Table.get?_of_get?_erase hlater)
    | dropRound k =>
        cases (step_dropRound_eq_some taken).2
        exact .unmoved (Table.get?_of_get?_erase hlater)
    | _ => contradiction

end

/-- Every permit of an open round is free or with a collector at work. -/
def Balanced (e : Engine) : Prop :=
  ∀ id r, e.rounds.get? id = some r → r.stage.isQueued = false →
    r.permits + e.busy id = e.settings.concurrency

theorem Balanced.step (h : e.Balanced) (taken : e.step action = some (e', events)) :
    e'.Balanced := by
  intro id later hlater hopen
  rw [settings_of_step taken, busy, hlater, Option.elim_some]
  cases permitMove_of_step taken hlater with
  | begins _ _ hqueued => simp [hqueued] at hopen
  | enters _ _ _ hpermits hidle => omega
  | goesOn hr hsame _ _ hsum =>
      have hsum' := h id _ hr (hsame ▸ hopen)
      rw [busy, hr, Option.elim_some] at hsum'
      omega

variable {settings : EngineSettings} {board : Board}

theorem settings_of_run (run : Run step (create settings board) history e) :
    e.settings = { settings with concurrency := max 1 settings.concurrency } := by
  induction run with
  | nil => rfl
  | snoc _ taken ih => exact (settings_of_step taken).trans ih

theorem balanced_of_run (run : Run step (create settings board) history e) : e.Balanced :=
  run.invariant (fun id r hr => by simp [create, say] at hr) fun taken h => h.step taken

/-! ## What the history says of the permits -/

theorem permitUses_of_new (run : Run step (create settings board) history e)
    (hle : e.nextId ≤ id) : permitUses id history = [] := by
  induction run with
  | nil => rfl
  | @snoc steps e e' action events run taken ih =>
      have hle' : e.nextId ≤ id := Nat.le_trans (nextId_le_of_step taken) hle
      rw [permitUses_snoc, ih hle', permitUse?_of_not (x := ⟨e, action, e', events⟩)
        (not_isOfTask_of_le (numbered_of_run run) taken hle')]
      rfl

/-- The free permits of a round are those that its history leaves; a round in the queue has not
used any. -/
theorem free?_of_run (run : Run step (create settings board) history e) {r : EngineRound}
    (hr : e.rounds.get? id = some r) :
    (r.stage.isQueued = true → permitUses id history = []) ∧
      (r.stage.isQueued = false →
        PermitUse.free? (max 1 settings.concurrency) (permitUses id history) = some r.permits) := by
  induction run generalizing r with
  | nil => simp [create, say] at hr
  | @snoc steps e e' action events run taken ih =>
      rw [permitUses_snoc]
      cases permitMove_of_step taken hr with
      | begins hid huse hqueued =>
          have hnone := permitUses_of_new run (Nat.le_of_eq hid.symm)
          simp [huse, hnone, hqueued]
      | enters hr hqueued huse hpermits =>
          have hlimit : r.permits = max 1 settings.concurrency := by
            rw [hpermits, settings_of_run run]
          rw [huse, (ih hr).1 hqueued, hlimit]
          exact ⟨fun _ => rfl, fun _ => rfl⟩
      | goesOn hr hsame hunused huse =>
          obtain ⟨hqueued, hfree⟩ := ih hr
          refine ⟨fun hlater => ?_, fun hlater => ?_⟩
          · rw [hunused hlater, hqueued (hsame ▸ hlater)]
            rfl
          · rw [PermitUse.free?_snoc (hfree (hsame ▸ hlater)), huse]

/-! ## The tasks and the permits -/

section

variable {r : EngineRound} {plan : String} {began : Utc} {tasks : Table String RoundTask}

/-- A domain that waits can start if a permit is free. -/
theorem isSome_startTask_iff (hr : e.rounds.get? id = some r)
    (hstage : r.stage = .collecting plan began tasks) {d : String} {t : RoundTask}
    (ht : tasks.get? d = some t) (hwaiting : t.stage = .waiting) :
    (e.step (.startTask id d)).isSome = true ↔ 0 < r.permits := by
  by_cases hfree : 0 < r.permits <;>
    simp [step, startTask, withTask, withRound, hr, hstage, ht, hwaiting, hfree]

/-- A task that collects can end in every way, and its domain alone is affected. -/
theorem step_ending (hr : e.rounds.get? id = some r)
    (hstage : r.stage = .collecting plan began tasks) {d : String} {t : RoundTask}
    (ht : tasks.get? d = some t) (hcollecting : t.stage = .collecting) (result : CollectResult) :
    e.step (.ending id d result) = some (e.setRound id { r with
      stage := .collecting plan began (tasks.insert d { t with stage := .finished result })
      permits := r.permits + 1 }, []) := by
  cases result <;>
    simp [EngineAction.ending, step, finishTask, loseTask, withTask, withRound, RoundTask.result?,
      RoundTask.isCollecting, hr, hstage, ht, hcollecting]

end

theorem Tallies.collecting_iff {t : Option RoundTask} {n : Nat} {results : List CollectResult}
    (h : Tallies t n results) :
    t.any RoundTask.isCollecting = true ↔ n ≠ 0 ∧ results = [] := by
  cases h with
  | absent => simp
  | waiting hstage => simp [RoundTask.isCollecting, hstage]
  | collecting hstage => simp [RoundTask.isCollecting, hstage]
  | ended hstage => simp [RoundTask.isCollecting, hstage]

theorem Tallies.waiting_of {t : RoundTask} {n : Nat} {results : List CollectResult}
    (h : Tallies (some t) n results) (hcalls : n = 0) (houtcomes : results = []) :
    t.stage = .waiting := by
  cases h with
  | waiting hstage => exact hstage
  | collecting => contradiction
  | ended => contradiction

/-- How a round rations the calls of its level's collectors, of which `limit` may be at work. -/
structure Rations (limit : Nat) (e : Engine) (id : Nat) (level : String)
    (history : List (Step Engine EngineAction EngineEvent)) (free : Nat) : Prop where
  /-- Nobody has ever gone on without a permit. -/
  ledger : PermitUse.free? limit (permitUses id history) = some free
  /-- No permit is lost: each is free or with a call in progress. -/
  balance : free + (inProgress id history e.live level).length = limit
  /-- Every domain that waits can start as soon as there are fewer calls than permits. -/
  starts : ∀ d ∈ e.live.asked level, calls id d history = 0 → outcomes id d history = [] →
    ((e.step (.startTask id d)).isSome = true ↔
      (inProgress id history e.live level).length < limit)
  /-- A call may end in every way at any time, and its permit is free then. -/
  returns : ∀ d ∈ inProgress id history e.live level, ∀ result, ∃ after,
    e.step (.ending id d result) = some (after, []) ∧
      PermitUse.free? limit (permitUses id (history ++ [⟨e, .ending id d result, after, []⟩])) =
        some (free + 1)

section

variable {r : EngineRound}

/-- The collectors at work are those of the domains that the history shows in progress. -/
theorem length_inProgress (run : Run step (create settings board) history e)
    (hr : e.rounds.get? id = some r) (hopen : r.stage.isQueued = false) :
    (inProgress id history e.live r.level).length = e.busy id := by
  have tallies := tallies_of_run run (.inl (Table.mem_iff.2 ⟨r, hr⟩))
  obtain ⟨-, tasked⟩ := (complete_of_run run).rounds id r hr hopen
  obtain ⟨plan, began, tasks, hstage⟩ := RoundStage.eq_collecting hopen
  have htasks := task?_eq_get? hr hstage
  have hbusy : e.busy id = tasks.values.countP RoundTask.isCollecting := by
    simp [busy, hr, EngineRound.atWork, hstage]
  have hkeys : (e.live.asked r.level).keys = tasks.keys :=
    Table.keys_eq_of_mem_iff (fun d => by
      rw [← tasked d, htasks d, Table.mem_iff, Option.isSome_iff_exists])
  rw [hbusy, Table.countP_values, inProgress, hkeys, ← List.countP_eq_length_filter]
  refine List.countP_congr (fun d _ => ?_)
  rw [← htasks d, (tallies d).collecting_iff, decide_eq_true_iff]

/--
Whatever its collectors do and in whatever order, an open round never has more
of them at work than are configured, or one if that is none.  A call that ends
makes room for another one, however it ends, so a domain that waits can start
whenever fewer calls are in progress.
-/
theorem calls_are_rationed (run : Run step (create settings board) history e)
    (hr : e.rounds.get? id = some r) (hopen : r.stage.isQueued = false) :
    Rations (max 1 settings.concurrency) e id r.level history r.permits := by
  have there : id ∈ e.rounds := Table.mem_iff.2 ⟨r, hr⟩
  have tallies := tallies_of_run run (.inl there)
  obtain ⟨-, tasked⟩ := (complete_of_run run).rounds id r hr hopen
  obtain ⟨plan, began, tasks, hstage⟩ := RoundStage.eq_collecting hopen
  have hledger := (free?_of_run run hr).2 hopen
  have hbalance : r.permits + (inProgress id history e.live r.level).length =
      max 1 settings.concurrency := by
    rw [length_inProgress run hr hopen, balanced_of_run run id r hr hopen, settings_of_run run]
  refine ⟨hledger, hbalance, ?_, ?_⟩
  · intro d hd hcalls houtcomes
    obtain ⟨t, ht⟩ := Option.isSome_iff_exists.1 ((tasked d).2 hd)
    have hwaiting := (ht ▸ tallies d).waiting_of hcalls houtcomes
    rw [isSome_startTask_iff hr hstage (task?_eq_get? hr hstage d ▸ ht) hwaiting]
    omega
  · intro d hd result
    obtain ⟨-, hcalled⟩ := List.mem_filter.1 hd
    have hany := (tallies d).collecting_iff.2 (of_decide_eq_true hcalled)
    obtain ⟨t, ht, hcollecting⟩ := (Option.any_eq_true ..).1 hany
    have huse : ∀ after, permitUse? id ⟨e, .ending id d result, after, []⟩ = some .giveBack := by
      intro after
      cases result <;> simp [permitUse?, EngineAction.ending, hany]
    refine ⟨_, step_ending hr hstage (task?_eq_get? hr hstage d ▸ ht)
      (of_decide_eq_true hcollecting) result, ?_⟩
    rw [permitUses_snoc, PermitUse.free?_snoc hledger, huse]
    cases r.permits <;> rfl

end

/-- With no permit of its own configured, a round of four domains calls one after the other; one
panics while the others wait. -/
def panicAmongFour : List EngineAction := mixedOutcomes.take 17 ++ [.startTask 1 "disk"]

def panicRun : List (Step Engine EngineAction EngineEvent) × Engine :=
  Run.follow step (create { concurrency := 0 } ∅)
    (panicAmongFour ++ [.finishTask 1 "disk" (.panicked "boom" none)])

theorem calls_are_rationed_after_panic :
    Run step (create { concurrency := 0 } ∅) panicRun.1 panicRun.2 ∧
    Rations 1 panicRun.2 1 "kpi" panicRun.1 1 ∧
    ((Run.follow step (create { concurrency := 0 } ∅) panicAmongFour).2.step
      (.startTask 1 "net")).isSome = false ∧
    (panicRun.2.step (.startTask 1 "net")).isSome = true := by
  have hrun : Run step (create { concurrency := 0 } ∅) panicRun.1 panicRun.2 := Run.of_follow ..
  have hround : (panicRun.2.rounds.get? 1).map (fun r => (r.level, r.permits, r.stage.isQueued)) =
      some ("kpi", 1, false) := by decide +kernel
  obtain ⟨r, hr, hround⟩ := Option.map_eq_some_iff.1 hround
  obtain ⟨hlevel, hpermits, hopen⟩ : r.level = "kpi" ∧ r.permits = 1 ∧ r.stage.isQueued = false := by
    simpa using hround
  have hrations := calls_are_rationed hrun hr hopen
  rw [hlevel, hpermits] at hrations
  exact ⟨hrun, hrations, by decide +kernel, by decide +kernel⟩

end Engine

end Cadence
