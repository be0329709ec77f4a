import Cadence.Proofs.Plan.Inheritance
import Cadence.Proofs.Scheduler.Succession

/-!
# The plan that is live and the plan that is scheduled

A plan becomes live when the engine swaps it in, and is scheduled by a hook that
comes after the swap.  Between the two engine and scheduler differ.  At all other
times they agree, provided that no other plan is swapped in between; and none can
be as long as changes take turns, nor on a single thread, where nothing at all
comes between a swap and its hook.  A change that is not activated leaves
everything as it was.
-/

namespace Cadence

/-- These are the levels of the plan with their whole seconds, the finest first. -/
structure Plan.Ascending (plan : Plan) (levels : List SortedLevel) : Prop where
  ascending : levels.Pairwise (fun a b => a.freq < b.freq)
  all : levels.Perm
    (plan.levels.values.map (fun level => ⟨level.name, Plan.seconds plan.name level⟩))

theorem Plan.ascending_of_sort {plan sorted : Plan} {levels : List SortedLevel}
    (h : plan.sort = .ok (levels, sorted)) : sorted.Ascending levels := by
  obtain ⟨valid, rfl, rfl⟩ := Plan.sort_eq_ok_iff.1 h
  refine ⟨Plan.pairwise_order valid, ?_⟩
  rw [← Plan.order_inheriting]
  exact Plan.perm_order _

namespace Preparation

/-- The plan of a preparation that has made it live and has not run its hook yet. -/
def unscheduled? (p : Preparation) : Option Plan :=
  match p.stage with
  | .swapped _ => some p.plan
  | _ => none

variable {p : Preparation}

theorem unscheduled?_of_swapped {cleanups : List Cleanup} (h : p.stage = .swapped cleanups) :
    p.unscheduled? = some p.plan := by
  rw [unscheduled?, h]

theorem unscheduled?_of_not_swapped (h : ∀ cleanups, p.stage ≠ .swapped cleanups) :
    p.unscheduled? = none := by
  unfold unscheduled?
  split
  · next cleanups hstage => exact absurd hstage (h cleanups)
  · rfl

end Preparation

theorem Engine.Ends.not_swapped {p : Preparation} {inner : EngineAction} {outcome : PrepareOutcome}
    (h : Engine.Ends p inner outcome) (cleanups : List Cleanup) : p.stage ≠ .swapped cleanups := by
  intro hstage
  cases h with
  | cancelled _ hopen => simp [hstage, PrepareStage.isConcluded] at hopen
  | uncreated hother => simp [hstage] at hother
  | unprepared hother => simp [hstage] at hother
  | uncommitted hother => simp [hstage] at hother
  | ready hother => simp [hstage] at hother

theorem Engine.Ends.eq_ready {p : Preparation} {inner : EngineAction} {outcome : PrepareOutcome}
    (h : Engine.Ends p inner outcome) (hstage : p.stage = .pruning) : outcome = .ready := by
  cases h with
  | cancelled _ hopen => simp [hstage, PrepareStage.isConcluded] at hopen
  | uncreated hother => simp [hstage] at hother
  | unprepared hother => simp [hstage] at hother
  | uncommitted hother => simp [hstage] at hother
  | ready => rfl

namespace Scheduler

def unscheduled? (s : Scheduler) (id : Nat) : Option Plan :=
  (s.engine.preparations.get? id).bind (·.unscheduled?)

/-- Every plan that has gone live has been scheduled. -/
def Settled (s : Scheduler) : Prop := ∀ id, s.unscheduled? id = none

/-- Nothing is live and nothing is scheduled, or the live plan is, with its levels in order. -/
inductive Agrees (s : Scheduler) : Prop
  | nothing : s.engine.live.plan = none → s.active = {} → Agrees s
  | scheduled {plan : Plan} {state : InstanceState} : s.engine.live.plan = some plan →
      s.active.plan = plan.name → plan.Ascending s.active.levels → s.active.state = some state →
      Agrees s

/-- If a live plan has still to be scheduled, this step schedules it.  On a single thread every
step is like that, since nothing comes between a swap and its hook. -/
def Prompt (y : Step Scheduler Move SchedulerEvent) : Prop :=
  ∀ id plan, y.before.unscheduled? id = some plan → y.after.unscheduled? id = none

/-- What a move means for the live plan and for the scheduled one. -/
inductive Shifts (s s' : Scheduler) : Prop
  | keeps : s'.active = s.active → s'.engine.live = s.engine.live →
      (∀ k, s'.unscheduled? k = s.unscheduled? k) → Shifts s s'
  | swaps {id : Nat} {p : Preparation} : s'.active = s.active →
      s.engine.preparations.get? id = some p → p.stage = .swapping →
      s'.engine.live.plan = some p.plan →
      (∀ k, s'.unscheduled? k = if k = id then some p.plan else s.unscheduled? k) → Shifts s s'
  | schedules {id change : Nat} {c : PlanChange} : s.changes.get? change = some c →
      s.unscheduled? id = some c.plan → s'.active = c.scheduled →
      s'.engine.live = s.engine.live →
      (∀ k, s'.unscheduled? k = if k = id then none else s.unscheduled? k) → Shifts s s'

/-- Engine and scheduler agree, or there is one plan still to be scheduled, and that is live. -/
structure Aligned (s : Scheduler) : Prop where
  sorted : ∀ id c, s.changes.get? id = some c → ∃ plan : Plan, plan.sort = .ok (c.levels, c.plan)
  settled : s.Settled → s.Agrees
  unscheduled : ∀ id plan, s.unscheduled? id = some plan →
    s.engine.live.plan = some plan ∧ ∀ other, other ≠ id → s.unscheduled? other = none

variable {s s' : Scheduler} {action : Move} {events raised : List SchedulerEvent}
  {history steps : History} {y : Step Scheduler Move SchedulerEvent} {id change : Nat}

/-! ## One move -/

theorem unscheduled?_of_get? {p : Preparation} (hp : s.engine.preparations.get? id = some p) :
    s.unscheduled? id = p.unscheduled? := by
  rw [unscheduled?, hp, Option.bind_some]

theorem unscheduled?_of_eq (h : s'.engine.preparations = s.engine.preparations) (k : Nat) :
    s'.unscheduled? k = s.unscheduled? k := by
  rw [unscheduled?, unscheduled?, h]

theorem unscheduled?_of_insert {p : Preparation}
    (h : s'.engine.preparations = s.engine.preparations.insert id p) (k : Nat) :
    s'.unscheduled? k = if k = id then p.unscheduled? else s.unscheduled? k := by
  rw [unscheduled?, unscheduled?, h, Table.get?_insert]
  split <;> rfl

theorem unscheduled?_of_erase (h : s'.engine.preparations = s.engine.preparations.erase id)
    (k : Nat) : s'.unscheduled? k = if k = id then none else s.unscheduled? k := by
  rw [unscheduled?, unscheduled?, h, Table.get?_erase]
  split <;> rfl

theorem Serves.unscheduled? (serves : Serves s s' action raised) (k : Nat) :
    s'.unscheduled? k = s.unscheduled? k := by
  unfold Scheduler.unscheduled?
  rcases serves.cancelsAtMost k with hsame | hcancelled
  · rw [hsame]
  · rw [hcancelled]
    cases s.engine.preparations.get? k <;> rfl

theorem Serves.stage (serves : Serves s s' action raised) {p : Preparation}
    (hp : s.engine.preparations.get? id = some p) :
    ∃ p', s'.engine.preparations.get? id = some p' ∧ p'.stage = p.stage := by
  rcases serves.cancelsAtMost id with hsame | hcancelled
  · exact ⟨p, hsame.trans hp, rfl⟩
  · rw [hp] at hcancelled
    exact ⟨_, hcancelled, rfl⟩

theorem Linked.unscheduled? (h : s.Linked) {p : Preparation} {c : PlanChange}
    {cleanups : List Cleanup} (hp : s.engine.preparations.get? id = some p)
    (hstage : p.stage = .swapped cleanups) (hc : s.changes.get? change = some c)
    (happlying : c.stage = .applying id) : s.unscheduled? id = some c.plan := by
  obtain ⟨q, hq, hplan, -⟩ := h.applying change c id hc happlying
  obtain rfl := Option.some.inj (hp.symm.trans hq)
  rw [unscheduled?_of_get? hp, Preparation.unscheduled?_of_swapped hstage, hplan]

theorem unscheduled?_of_ends {p : Preparation} {inner : EngineAction} {outcome : PrepareOutcome}
    (hp : s.engine.preparations.get? id = some p) (hends : Engine.Ends p inner outcome)
    (hnext : s'.engine.preparations = s.engine.preparations.erase id) (k : Nat) :
    s'.unscheduled? k = s.unscheduled? k := by
  rw [unscheduled?_of_erase hnext]
  split
  · next hk =>
      rw [hk, unscheduled?_of_get? hp, Preparation.unscheduled?_of_not_swapped hends.not_swapped]
  · rfl

theorem Proceeds.shifts (linked : s.Linked) (proceeds : Proceeds s s' action raised) :
    Shifts s s' := by
  cases proceeds with
  | works _ hcontrol hapart =>
      exact .keeps (congrArg Control.active hcontrol) hapart.live
        (unscheduled?_of_eq hapart.preparations)
  | pauses hcontrol hapart =>
      exact .keeps (congrArg Control.active hcontrol) hapart.live
        (unscheduled?_of_eq hapart.preparations)
  | begins _ _ hcontrol hlive _ hnext =>
      refine .keeps (congrArg Control.active hcontrol) hlive fun k => ?_
      rw [unscheduled?_of_insert hnext]
      split
      · next hk =>
          -- the number is new
          cases hp : s.engine.preparations.get? k with
          | none => rw [unscheduled?, hp]; rfl
          | some p => exact absurd (linked.preparations k p hp) (by omega)
      · rfl
  | @goesOn _ id p p' hcontrol hsteady hp hnext _ _ hopen hlooked =>
      refine .keeps (congrArg Control.active hcontrol) hsteady.live fun k => ?_
      have hwas : p.unscheduled? = none := Preparation.unscheduled?_of_not_swapped fun cleanups h => by
        simp [h, PrepareStage.isConcluded] at hopen
      have his : p'.unscheduled? = none := Preparation.unscheduled?_of_not_swapped fun cleanups h => by
        simp [h, PrepareStage.isConcluded] at hlooked
      rw [unscheduled?_of_insert hnext]
      split
      · next hk => rw [hk, unscheduled?_of_get? hp, hwas, his]
      · rfl
  | swaps hcontrol hsteady hp hstage hnext =>
      refine .swaps (congrArg Control.active hcontrol) hp hstage ?_ (unscheduled?_of_insert hnext)
      rw [hsteady.live]
      rfl
  | goesLive hsteady hp hstage hnext hc happlying hcontrol =>
      exact .schedules hc (linked.unscheduled? hp hstage hc happlying)
        (congrArg Control.active hcontrol) hsteady.live (unscheduled?_of_insert hnext)
  | breaksOff hsteady hp hstage hnext hc happlying hcontrol =>
      exact .schedules hc (linked.unscheduled? hp hstage hc happlying)
        (congrArg Control.active hcontrol) hsteady.live (unscheduled?_of_erase hnext)
  | panics hsteady hp hends hnext _ _ hcontrol =>
      exact .keeps (congrArg Control.active hcontrol) hsteady.live
        (unscheduled?_of_ends hp hends hnext)
  | concludes hsteady hp hends _ hnext _ _ hcontrol =>
      exact .keeps (congrArg Control.active hcontrol) hsteady.live
        (unscheduled?_of_ends hp hends hnext)
  | reports _ _ hcontrol hapart =>
      exact .keeps (congrArg Control.active hcontrol) hapart.live
        (unscheduled?_of_eq hapart.preparations)
  | ends _ _ _ hcontrol hapart =>
      exact .keeps (congrArg Control.active hcontrol) hapart.live
        (unscheduled?_of_eq hapart.preparations)

theorem shifts_of_move (linked : s.Linked) (taken : s.move action = some (s', events)) :
    Shifts s s' := by
  rcases serves_or_proceeds linked taken with serves | proceeds
  · exact .keeps serves.active_eq.1 serves.active_eq.2 serves.unscheduled?
  · exact proceeds.shifts linked

/-- No plan is still to be scheduled when another one is swapped in. -/
theorem settled_of_swap (calm : y.before.Orderly ∨ Prompt y) {p : Preparation}
    (hp : y.before.engine.preparations.get? id = some p) (hstage : p.stage = .swapping)
    (hnext : ∀ k, y.after.unscheduled? k =
      if k = id then some p.plan else y.before.unscheduled? k) : y.before.Settled := by
  intro k
  cases hplan : y.before.unscheduled? k with
  | none => rfl
  | some plan =>
      exfalso
      rcases calm with orderly | prompt
      · obtain ⟨q, hq, hswapped⟩ := Option.bind_eq_some_iff.1 hplan
        obtain rfl := orderly.one_preparation hp hq
        obtain rfl := Option.some.inj (hp.symm.trans hq)
        simp [Preparation.unscheduled?, hstage] at hswapped
      · have hafter := prompt k plan hplan
        rw [hnext] at hafter
        split at hafter
        · contradiction
        · simp [hplan] at hafter

theorem Agrees.congr (h : s.Agrees) (hactive : s'.active = s.active)
    (hlive : s'.engine.live = s.engine.live) : s'.Agrees := by
  cases h with
  | nothing hnone hempty => exact .nothing (hlive ▸ hnone) (hactive ▸ hempty)
  | scheduled hplan hname hlevels hstate =>
      exact .scheduled (hlive ▸ hplan) (hactive ▸ hname) (hactive ▸ hlevels) (hactive ▸ hstate)

theorem sort_of_findSorted {name : String} {levels : List SortedLevel} {sorted : Plan}
    (h : s.findSorted name = .ok (levels, sorted)) : ∃ plan : Plan, plan.sort = .ok (levels, sorted) := by
  rw [findSorted] at h
  cases hplan : s.store.find name with
  | error e => simp [hplan, Except.bind] at h
  | ok plan => exact ⟨plan, by simpa [hplan, Except.bind] using h⟩

theorem Aligned.sorted_move (h : s.Aligned) (taken : s.move action = some (s', events))
    {later : PlanChange} (hlater : s'.changes.get? change = some later) :
    ∃ plan : Plan, plan.sort = .ok (later.levels, later.plan) := by
  rcases (moved taken).changes change later hlater with ⟨c, hc, hbecomes⟩ | ⟨-, caller, haccepts, -⟩
  · rw [hbecomes.levels, hbecomes.plan]
    exact h.sorted change c hc
  · obtain ⟨-, asking, name, -, -, hfound, -⟩ := haccepts
    exact sort_of_findSorted hfound

theorem Aligned.move (h : y.before.Aligned) (linked : y.before.Linked)
    (calm : y.before.Orderly ∨ Prompt y)
    (taken : y.before.move y.action = some (y.after, y.events)) : y.after.Aligned := by
  have sorted := fun k c (hc : y.after.changes.get? k = some c) => h.sorted_move taken hc
  cases shifts_of_move linked taken with
  | keeps hactive hlive hsame =>
      refine ⟨sorted, fun hsettled => ?_, fun k plan hplan => ?_⟩
      · exact (h.settled fun k => (hsame k).symm.trans (hsettled k)).congr hactive hlive
      · simp only [hsame, hlive] at hplan ⊢
        exact h.unscheduled k plan hplan
  | @swaps id p hactive hp hstage hlive hnext =>
      have hbefore := settled_of_swap calm hp hstage hnext
      refine ⟨sorted, fun hsettled => ?_, fun k plan hplan => ?_⟩
      · have hnone := hsettled id
        simp [hnext] at hnone
      · rw [hnext] at hplan
        split at hplan
        · next hk =>
            obtain rfl := Option.some.inj hplan
            refine ⟨hlive, fun other hother => ?_⟩
            rw [hnext, if_neg (hk ▸ hother)]
            exact hbefore other
        · simp [hbefore k] at hplan
  | @schedules id change c hc hwas hactive hlive hnext =>
      obtain ⟨hplan, hothers⟩ := h.unscheduled id c.plan hwas
      refine ⟨sorted, fun _ => ?_, fun k plan hk => ?_⟩
      · obtain ⟨plan, hsort⟩ := h.sorted change c hc
        exact .scheduled (hlive ▸ hplan) (by rw [hactive]; rfl)
          (by rw [hactive]; exact Plan.ascending_of_sort hsort) (by rw [hactive]; rfl)
      · rw [hnext] at hk
        split at hk
        · contradiction
        · next hne => simp [hothers k hne] at hk

theorem Linked.settled (h : s.Linked) (idle : ∀ change, ¬ s.InFlight change) : s.Settled := by
  intro id
  cases hp : s.engine.preparations.get? id with
  | none => rw [Scheduler.unscheduled?, hp, Option.bind_none]
  | some p =>
      obtain ⟨change, c, hc, happlying⟩ := h.owned id p hp
      exact absurd (inFlight_of_applying hc happlying) (idle change)

/-- Ticks do not hand out anything between a swap and its hook. -/
theorem settled_of_handed (calm : y.before.Orderly ∨ Prompt y)
    (taken : y.before.move y.action = some (y.after, y.events)) {name : WorkerName} {order : Order}
    (handed : .handed name order ∈ y.events) : y.before.Settled := by
  obtain ⟨before, action, after, events⟩ := y
  simp only at calm taken handed ⊢
  cases action with
  | post line =>
      cases taken
      simp at handed
  | act action =>
      obtain ⟨rfl, run, -, horder⟩ := handed_of_step taken handed
      rcases calm with orderly | prompt
      · -- while a change is in flight ticks do not count
        refine orderly.linked.settled fun change hflight => ?_
        simp [orderAt, (orderly.tracked change hflight).1] at horder
      · have htick : before.step .tick = some (after, events) := taken
        intro k
        have hsame := unscheduled?_of_eq (apart_of_run rfl htick).preparations k
        cases hplan : before.unscheduled? k with
        | none => rfl
        | some plan => simp [prompt k plan hplan, hplan] at hsame

/-! ## Changes that are not activated -/

/-- The change has been activated: its task is over, or has nothing left to do but to prune and to
tell of it. -/
def Established (s : Scheduler) (change : Nat) : Prop :=
  ∃ c, s.changes.get? change = some c ∧
    ((c.stage = .ended ∨ ∃ told, c.stage = .finishing .ready told) ∨
      ∃ id p, c.stage = .applying id ∧ s.engine.preparations.get? id = some p ∧ p.stage = .pruning)

theorem established_of_activated (linked : s.Linked) (taken : s.move action = some (s', events))
    (hactivated : .activated change ∈ events) : s'.Established change := by
  rw [← mem_own rfl] at hactivated
  rcases serves_or_proceeds linked taken with serves | proceeds
  · generalize own events = raised at serves hactivated
    cases serves <;> simp at hactivated
  · generalize own events = raised at proceeds hactivated
    cases proceeds with
    | works _ _ _ hrun => exact absurd (hrun _ hactivated) Bool.false_ne_true
    | @goesLive _ id _ p _ c _ _ _ hnext hc happlying hcontrol =>
        obtain rfl : change = _ := by simpa using hactivated
        have hchanges : s'.changes = s.changes := congrArg Control.changes hcontrol
        refine ⟨c, hchanges ▸ hc, .inr ⟨id, { p with stage := .pruning }, happlying, ?_, rfl⟩⟩
        rw [hnext, Table.get?_insert_self]
    | breaksOff _ _ _ _ _ _ hcontrol =>
        obtain rfl : change = _ := by simpa using hactivated
        have hchanges : s'.changes = s.changes.insert change _ := congrArg Control.changes hcontrol
        exact ⟨_, by rw [hchanges, Table.get?_insert_self], .inl (.inl rfl)⟩
    | _ => simp at hactivated

theorem Established.serves (h : s.Established change) (linked : s.Linked)
    (serves : Serves s s' action raised) : s'.Established change := by
  obtain ⟨c, hc, hpast⟩ := h
  obtain ⟨later, hlater, -, hsame⟩ := stands_of_serves linked serves hc
  refine ⟨later, hlater, ?_⟩
  rw [hsame]
  refine hpast.imp id ?_
  rintro ⟨id, p, happlying, hp, hstage⟩
  obtain ⟨p', hp', hstage'⟩ := serves.stage hp
  exact ⟨id, p', happlying, hp', hstage'.trans hstage⟩

theorem Established.same (h : s.Established change) (hchanges : s'.changes = s.changes)
    (hkept : ∀ {k p}, s.engine.preparations.get? k = some p → p.stage = .pruning →
      s'.engine.preparations.get? k = some p) : s'.Established change := by
  obtain ⟨c, hc, hpast⟩ := h
  refine ⟨c, hchanges ▸ hc, hpast.imp id ?_⟩
  rintro ⟨k, p, happlying, hp, hstage⟩
  exact ⟨k, p, happlying, hkept hp hstage, hstage⟩

/-- The task of a change loses its preparation, maybe that of this one. -/
theorem Established.erase (h : s.Established change) (linked : s.Linked) {k : Nat} {d : PlanChange}
    {stage : ChangeStage} {p : Preparation} (hd : s.changes.get? k = some d)
    (happlying : d.stage = .applying id) (hp : s.engine.preparations.get? id = some p)
    (hover : p.stage = .pruning → stage = .ended ∨ ∃ told, stage = .finishing .ready told)
    (hchanges : s'.changes = s.changes.insert k { d with stage })
    (hnext : s'.engine.preparations = s.engine.preparations.erase id) : s'.Established change := by
  obtain ⟨c, hc, hpast⟩ := h
  by_cases hk : change = k
  · subst hk
    obtain rfl := Option.some.inj (hc.symm.trans hd)
    rw [happlying] at hpast
    obtain ⟨id', p', hsame, hp', hstage⟩ := hpast.resolve_left (by simp)
    obtain rfl := ChangeStage.applying.inj hsame
    obtain rfl := Option.some.inj (hp.symm.trans hp')
    exact ⟨_, by rw [hchanges, Table.get?_insert_self], .inl (hover hstage)⟩
  · refine ⟨c, by rw [hchanges, Table.get?_insert, if_neg hk, hc], hpast.imp (·) ?_⟩
    rintro ⟨other, p, hother, hp, hstage⟩
    have hne : other ≠ id := by
      rintro rfl
      exact hk (linked.distinct _ _ _ _ _ hc hd hother happlying)
    exact ⟨other, p, hother, by rw [hnext, Table.get?_erase, if_neg hne, hp], hstage⟩

/-- The task of a change goes on without its preparation. -/
theorem Established.finish (h : s.Established change) {k : Nat} {d : PlanChange}
    {stage : ChangeStage} (hd : s.changes.get? k = some d)
    (hpast : ∀ preparation, d.stage ≠ .applying preparation)
    (hover : (d.stage = .ended ∨ ∃ told, d.stage = .finishing .ready told) →
      stage = .ended ∨ ∃ told, stage = .finishing .ready told)
    (hchanges : s'.changes = s.changes.insert k { d with stage })
    (hapart : s.engine.Apart s'.engine) : s'.Established change := by
  obtain ⟨c, hc, hcases⟩ := h
  by_cases hk : change = k
  · subst hk
    obtain rfl := Option.some.inj (hc.symm.trans hd)
    refine ⟨_, by rw [hchanges, Table.get?_insert_self], .inl (hover (hcases.resolve_right ?_))⟩
    rintro ⟨id, -, happlying, -⟩
    exact hpast id happlying
  · refine ⟨c, by rw [hchanges, Table.get?_insert, if_neg hk, hc], ?_⟩
    rw [hapart.preparations]
    exact hcases

theorem get?_of_pruning {p p' q : Preparation} {k : Nat} (hp : s.engine.preparations.get? id = some p)
    (hother : p.stage ≠ .pruning)
    (hnext : s'.engine.preparations = s.engine.preparations.insert id p')
    (hq : s.engine.preparations.get? k = some q) (hstage : q.stage = .pruning) :
    s'.engine.preparations.get? k = some q := by
  rw [hnext, Table.get?_insert, if_neg, hq]
  rintro rfl
  exact hother (Option.some.inj (hq.symm.trans hp) ▸ hstage)

theorem Established.proceeds (h : s.Established change) (linked : s.Linked)
    (proceeds : Proceeds s s' action raised) : s'.Established change := by
  cases proceeds with
  | works _ hcontrol hapart =>
      exact h.same (congrArg Control.changes hcontrol) fun hp _ => hapart.preparations ▸ hp
  | pauses hcontrol hapart =>
      exact h.same (congrArg Control.changes hcontrol) fun hp _ => hapart.preparations ▸ hp
  | @begins k d hd hspawned hcontrol _ _ hnext =>
      obtain ⟨c, hc, hpast⟩ := h
      have hchanges : s'.changes = s.changes.insert k _ := congrArg Control.changes hcontrol
      have hk : change ≠ k := by
        rintro rfl
        obtain rfl := Option.some.inj (hc.symm.trans hd)
        simp [hspawned] at hpast
      refine ⟨c, by rw [hchanges, Table.get?_insert, if_neg hk, hc], hpast.imp (·) ?_⟩
      rintro ⟨id, p, happlying, hp, hstage⟩
      have hid := linked.preparations id p hp
      exact ⟨id, p, happlying, by rw [hnext, Table.get?_insert, if_neg (Nat.ne_of_lt hid), hp], hstage⟩
  | goesOn hcontrol _ hp hnext _ _ hopen =>
      refine h.same (congrArg Control.changes hcontrol) (get?_of_pruning hp (fun hstage => ?_) hnext)
      simp [hstage, PrepareStage.isConcluded] at hopen
  | swaps hcontrol _ hp hstage hnext =>
      exact h.same (congrArg Control.changes hcontrol) (get?_of_pruning hp (by simp [hstage]) hnext)
  | goesLive _ hp hstage hnext _ _ hcontrol =>
      exact h.same (congrArg Control.changes hcontrol) (get?_of_pruning hp (by simp [hstage]) hnext)
  | breaksOff _ hp _ hnext hd happlying hcontrol =>
      exact h.erase linked hd happlying hp (fun _ => .inl rfl) (congrArg Control.changes hcontrol)
        hnext
  | panics _ hp _ hnext hd happlying hcontrol =>
      exact h.erase linked hd happlying hp (fun _ => .inl rfl) (congrArg Control.changes hcontrol)
        hnext
  | concludes _ hp hends _ hnext hd happlying hcontrol =>
      refine h.erase linked hd happlying hp (fun hstage => .inr ⟨false, ?_⟩)
        (congrArg Control.changes hcontrol) hnext
      rw [hends.eq_ready hstage]
  | reports hd hstage hcontrol hapart =>
      refine h.finish hd (by simp [hstage]) ?_ (congrArg Control.changes hcontrol) hapart
      rw [hstage]
      rintro (hended | ⟨told, hready⟩)
      · contradiction
      · obtain ⟨rfl, -⟩ := ChangeStage.finishing.inj hready
        exact .inr ⟨true, rfl⟩
  | ends hd hstage _ hcontrol hapart =>
      exact h.finish hd (by simp [hstage]) (fun _ => .inl rfl) (congrArg Control.changes hcontrol)
        hapart

theorem Established.move (h : s.Established change) (linked : s.Linked)
    (taken : s.move action = some (s', events)) : s'.Established change :=
  (serves_or_proceeds linked taken).elim (h.serves linked) (h.proceeds linked)

/-- What ends was in flight until then, and if it has been activated before, it is ready. -/
theorem inFlight_of_changeEnded (linked : s.Linked) (taken : s.move action = some (s', events))
    {outcome : PrepareOutcome} (hended : .changeEnded change outcome ∈ events) :
    s.InFlight change ∧
      (.activated change ∈ events ∨ (s.Established change → outcome = .ready)) := by
  rw [← mem_own rfl] at hended ⊢
  rcases serves_or_proceeds linked taken with serves | proceeds
  · exact absurd hended serves.not_endedWith
  · generalize own events = raised at proceeds hended ⊢
    cases proceeds with
    | works _ _ _ hrun => exact absurd (hrun _ hended) Bool.false_ne_true
    | breaksOff _ _ _ _ hc happlying =>
        obtain ⟨rfl, -⟩ : change = _ ∧ outcome = _ := by simpa using hended
        exact ⟨inFlight_of_applying hc happlying, .inl List.mem_cons_self⟩
    | panics _ hp hends _ hc happlying =>
        obtain ⟨rfl, rfl⟩ : change = _ ∧ outcome = _ := by simpa using hended
        refine ⟨inFlight_of_applying hc happlying, .inr ?_⟩
        rintro ⟨d, hd, hpast⟩
        obtain rfl := Option.some.inj (hc.symm.trans hd)
        rw [happlying] at hpast
        obtain ⟨id', p', hsame, hp', hstage⟩ := hpast.resolve_left (by simp)
        obtain rfl := ChangeStage.applying.inj hsame
        obtain rfl := Option.some.inj (hp.symm.trans hp')
        exact hends.eq_ready hstage
    | ends hc hstage =>
        obtain ⟨rfl, rfl⟩ : change = _ ∧ outcome = _ := by simpa using hended
        refine ⟨⟨_, hc, by simp [hstage]⟩, .inr ?_⟩
        rintro ⟨d, hd, hpast⟩
        obtain rfl := Option.some.inj (hc.symm.trans hd)
        simp only [hstage, ChangeStage.finishing.injEq, exists_and_left] at hpast
        simpa using hpast
    | _ => simp at hended

/-! ## Runs -/

/-- Who is behind the calls takes turns, or a single thread runs everything. -/
def Coordinated (history : History) : Prop :=
  (∀ y ∈ history, Stays y) ∨ ∀ y ∈ history, Prompt y

variable {settings : SchedulerSettings} {engine : EngineSettings} {board : Board} {store : PlanStore}
  {sinks : List String} {start last : Scheduler}

theorem Coordinated.calm
    (run : Run Scheduler.move (create settings (.create engine board) store sinks) history last)
    (h : Coordinated history) (hy : y ∈ history) : y.before.Orderly ∨ Prompt y := by
  refine h.imp (fun stays => ?_) (fun prompt => prompt y hy)
  obtain ⟨earlier, later, rfl⟩ := List.append_of_mem hy
  obtain ⟨before, -, -⟩ := run.taken
  exact (accounted_of_run before fun x hx => stays x (List.mem_append_left _ hx)).orderly

theorem aligned_of_run
    (run : Run Scheduler.move (create settings (.create engine board) store sinks) history last)
    (calm : ∀ y ∈ history, y.before.Orderly ∨ Prompt y) : last.Aligned := by
  induction run with
  | nil =>
      refine ⟨by simp [create, say, setStatus], fun _ => .nothing rfl rfl, ?_⟩
      simp [unscheduled?, create, say, setStatus, Engine.create, Engine.say]
  | snoc run taken ih =>
      have hbefore := ih fun y hy => calm y (List.mem_append_left _ hy)
      exact hbefore.move (y := ⟨_, _, _, _⟩) (linked_of_run (linked_create ..) run)
        (calm _ (List.mem_append_right _ (List.mem_singleton_self _))) taken

/-- As long as no change is activated, only a pause makes a difference. -/
theorem unchanged_of_run (run : Run Scheduler.move start steps last)
    (hnone : ∀ k, ¬ Activated steps k) : last.active = start.active ∧
      (last.paused = true ↔ start.paused = true ∨ ∃ y ∈ steps, y.action = .act .pause) := by
  induction run with
  | nil => simp
  | @snoc steps s s' action events run taken ih =>
      obtain ⟨hactive, hpaused⟩ := ih fun k hk => hnone k (hk.mono (List.subset_append_left _ _))
      have hquiet : ∀ k, .activated k ∉ events := fun k hk =>
        hnone k ⟨_, List.mem_append_right _ (List.mem_singleton_self _), hk⟩
      refine ⟨((moved taken).active hquiet).trans hactive, ?_⟩
      simp only [(moved taken).paused, hpaused, hquiet, not_false_iff, implies_true, and_true,
        List.mem_append, List.mem_singleton, or_and_right, exists_or, exists_eq_left]
      exact or_comm.trans or_assoc

theorem ended_of_run (linked : start.Linked) (run : Run Scheduler.move start steps last)
    (hover : ∃ c, start.changes.get? change = some c ∧ c.stage = .ended) :
    ∃ c, last.changes.get? change = some c ∧ c.stage = .ended := by
  induction run with
  | nil => exact hover
  | snoc run taken ih =>
      obtain ⟨c, hc, hended⟩ := ih
      have hlinked := linked_of_run linked run
      rcases serves_or_proceeds hlinked taken with serves | proceeds
      · obtain ⟨later, hlater, -, hsame⟩ := stands_of_serves hlinked serves hc
        exact ⟨later, hlater, hsame.trans hended⟩
      · obtain ⟨later, hlater, -, -, hover⟩ := stands_of_proceeds proceeds hc
        exact ⟨later, hlater, hover hended⟩

theorem Established.run (h : start.Established change) (linked : start.Linked)
    (run : Run Scheduler.move start steps last) : last.Established change := by
  induction run with
  | nil => exact h
  | snoc run taken ih => exact ih.move (linked_of_run linked run) taken

/-- A change that ends without being ready has not been activated before. -/
theorem not_activated_of_ended (linked : start.Linked)
    (run : Run Scheduler.move start (steps ++ [y]) last) {outcome : PrepareOutcome}
    (hended : .changeEnded change outcome ∈ y.events) (houtcome : outcome ≠ .ready)
    (hnone : .activated change ∉ y.events) : ¬ Activated steps change := by
  rintro ⟨x, hx, hactivated⟩
  obtain ⟨earlier, later, rfl⟩ := List.append_of_mem hx
  obtain ⟨run, ending, -⟩ := Run.snoc_iff.1 run
  obtain ⟨before, taken, following⟩ := run.taken
  have hbefore := linked_of_run linked before
  have hpast := (established_of_activated hbefore taken hactivated).run (hbefore.move taken) following
  obtain ⟨-, hready⟩ := inFlight_of_changeEnded (linked_of_run linked run) ending hended
  exact houtcome (hready.resolve_left hnone hpast)

/-- As long as changes take turns, no other one is activated while a change is in flight. -/
theorem eq_of_activated {earlier : History} {x : Step Scheduler Move SchedulerEvent}
    (run : Run Scheduler.move (create settings (.create engine board) store sinks)
      (earlier ++ x :: steps ++ [y]) last)
    (stays : ∀ z ∈ earlier ++ x :: steps ++ [y], Stays z) {a : Acceptance}
    (haccepted : acceptance? x = some a) {outcome : PrepareOutcome}
    (hended : .changeEnded a.change outcome ∈ y.events) {k : Nat} (hk : Activated steps k) :
    k = a.change := by
  obtain ⟨z, hz, hactivated⟩ := hk
  obtain ⟨pre, post, rfl⟩ := List.append_of_mem hz
  obtain ⟨run, ending, -⟩ := Run.snoc_iff.1 run
  have hsplit : earlier ++ x :: (pre ++ z :: post) = (earlier ++ x :: pre) ++ z :: post := by simp
  rw [hsplit] at run stays
  obtain ⟨before, taken, following⟩ := run.taken
  have accounted := accounted_of_run before fun w hw =>
    stays w (List.mem_append_left _ (List.mem_append_left _ hw))
  have hmem : a ∈ accepted (earlier ++ x :: pre) :=
    List.mem_filterMap.2 ⟨x, List.mem_append_right _ List.mem_cons_self, haccepted⟩
  obtain ⟨c, hc, -⟩ := accounted.listed.known a hmem
  by_cases hover : c.stage = .ended
  · -- what is over does not end again
    have linked := accounted.orderly.linked
    obtain ⟨d, hd, hdone⟩ := ended_of_run linked
      (Run.cons taken following) ⟨c, hc, hover⟩
    obtain ⟨⟨d', hd', hopen⟩, -⟩ :=
      inFlight_of_changeEnded (linked_of_run (linked_create ..) run) ending hended
    obtain rfl := Option.some.inj (hd.symm.trans hd')
    exact absurd hdone hopen
  · obtain ⟨d, hd, hopen⟩ := (moved taken).activated k hactivated
    exact accounted.orderly.single k a.change ⟨d, hd, hopen⟩ ⟨c, hc, hover⟩

theorem own_of_acceptance {a : Acceptance} (h : acceptance? y = some a) :
    own y.events = [.returned a.caller (.ok ())] := by
  unfold acceptance? at h
  split at h
  · next caller hown =>
      split at h
      · split at h
        · obtain rfl := Option.some.inj h
          exact hown
        · contradiction
      · contradiction
  · contradiction

theorem events_of_pause (taken : s.move (.act .pause) = some (s', events)) : events = [] := by
  cases taken
  rfl

theorem quiet_of_acceptance {a : Acceptance} (h : acceptance? y = some a) (k : Nat) :
    .activated k ∉ y.events := by
  rw [← mem_own rfl, own_of_acceptance h]
  simp

theorem not_pause_of_acceptance (taken : y.before.move y.action = some (y.after, y.events))
    {a : Acceptance} (h : acceptance? y = some a) : y.action ≠ .act .pause := by
  intro hpause
  have hown := own_of_acceptance h
  rw [hpause] at taken
  simp [events_of_pause taken, own] at hown

/-- From the acceptance of a change to its end only pauses make a difference, if nothing is
activated. -/
theorem unchanged_of_accepted {x z : Step Scheduler Move SchedulerEvent}
    (run : Run Scheduler.move x.before (x :: (steps ++ [z])) last) {a : Acceptance}
    (haccepted : acceptance? x = some a) {outcome : PrepareOutcome}
    (hended : .changeEnded change outcome ∈ z.events) (hsteps : ∀ k, ¬ Activated steps k)
    (hz : ∀ k, .activated k ∉ z.events) : last.active = x.before.active ∧
      (last.paused = true ↔ x.before.paused = true ∨ ∃ y ∈ steps, y.action = .act .pause) := by
  obtain ⟨hactive, hpaused⟩ := unchanged_of_run run fun k ⟨y, hy, hk⟩ => by
    simp only [List.mem_cons, List.mem_append, List.not_mem_nil, or_false] at hy
    rcases hy with rfl | hy | rfl
    · exact quiet_of_acceptance haccepted k hk
    · exact hsteps k ⟨y, hy, hk⟩
    · exact hz k hk
  refine ⟨hactive, hpaused.trans (or_congr_right ?_)⟩
  -- neither the acceptance nor the end is a pause
  have hfirst : Run Scheduler.move x.before ([] ++ x :: (steps ++ [z])) last := run
  have hxpause := not_pause_of_acceptance hfirst.taken.2.1 haccepted
  have hzpause : z.action ≠ .act .pause := by
    intro hpause
    obtain ⟨-, taken, -⟩ := Run.snoc_iff.1 ((List.cons_append ..).symm ▸ run)
    rw [hpause] at taken
    simp [events_of_pause taken] at hended
  simp [hxpause, hzpause]

end Scheduler

end Cadence
