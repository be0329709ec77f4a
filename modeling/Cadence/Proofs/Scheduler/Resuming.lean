import Cadence.Proofs.Scheduler.Agreement
import Cadence.Proofs.Scheduler.InForce
import Cadence.Proofs.Scheduler.Superseding

/-!
# When ticks count again

From the acceptance of a change no tick counts until a task of a change ends.
Whatever its outcome, the task then lets ticks count again and they are about the
plan that went live last; but not if it has broken off in a panic.  After that
ticks count for nothing until another change is asked for.
-/

namespace Cadence

/-- The order that the levels in force give rise to. -/
def Active.orderAt (a : Active) (tick : Nat) : Option Order :=
  match dueLevel? a.levels tick, a.state with
  | some level, some state => some { tick, level := level.name, plan := a.plan, state }
  | _, _ => none

namespace Scheduler

variable {s s' : Scheduler} {action : Move} {events raised : List SchedulerEvent}
  {history earlier later : History} {y : Step Scheduler Move SchedulerEvent} {change : Nat}

theorem orderAt_eq (s : Scheduler) (tick : Nat) :
    s.orderAt tick = if s.paused || s.changing then none else s.active.orderAt tick := rfl

/-! ## Whether ticks count -/

/-- The part of a history that lies behind the last acceptance of a change. -/
def sinceAcceptance (history : History) : History :=
  history.rtakeWhile (fun y => (acceptance? y).isNone)

theorem sinceAcceptance_snoc : sinceAcceptance (history ++ [y]) =
    if (acceptance? y).isNone then sinceAcceptance history ++ [y] else [] := by
  cases h : acceptance? y <;> simp [sinceAcceptance, h]

/-- The task of a change that panics has no time to let ticks count again. -/
theorem Proceeds.changing_iff (proceeds : Proceeds s s' action raised) :
    s'.changing = true ↔
      s.changing = true ∧ ∀ k outcome, .changeEnded k outcome ∈ raised → outcome = .panicked := by
  have same : ∀ control : Control, s'.control = control → control.changing = s.changing →
      (∀ k outcome, .changeEnded k outcome ∈ raised → outcome = .panicked) →
      (s'.changing = true ↔ s.changing = true ∧
        ∀ k outcome, .changeEnded k outcome ∈ raised → outcome = .panicked) := by
    rintro control rfl hchanging hpanicked
    have hsame : s'.changing = s.changing := hchanging
    rw [hsame, and_iff_left hpanicked]
  cases proceeds with
  | works _ hcontrol _ hrun =>
      exact same _ hcontrol rfl fun k outcome h => absurd (hrun _ h) Bool.false_ne_true
  | pauses hcontrol => exact same _ hcontrol rfl (by simp)
  | begins _ _ hcontrol => exact same _ hcontrol rfl (by simp)
  | goesOn hcontrol => exact same _ hcontrol rfl (by simp)
  | swaps hcontrol => exact same _ hcontrol rfl (by simp)
  | goesLive _ _ _ _ _ _ hcontrol => exact same _ hcontrol rfl (by simp)
  | breaksOff _ _ _ _ _ _ hcontrol => exact same _ hcontrol rfl (by simp)
  | panics _ _ _ _ _ _ hcontrol => exact same _ hcontrol rfl (by simp)
  | concludes _ _ _ _ _ _ _ hcontrol => exact same _ hcontrol rfl (by simp)
  | reports _ _ hcontrol => exact same _ hcontrol rfl (by simp)
  | @ends change outcome _ _ _ hother hcontrol =>
      have hchanging : s'.changing = false := congrArg Control.changing hcontrol
      refine iff_of_false (by simp [hchanging]) fun ⟨_, hall⟩ => hother ?_
      exact hall change outcome (List.mem_singleton_self _)

theorem changing_of_move (linked : y.before.Linked)
    (taken : y.before.move y.action = some (y.after, y.events)) :
    y.after.changing = true ↔ (acceptance? y).isSome ∨ y.before.changing = true ∧
      ∀ k outcome, .changeEnded k outcome ∈ y.events → outcome = .panicked := by
  have hown : ∀ k outcome, .changeEnded k outcome ∈ own y.events ↔
      .changeEnded k outcome ∈ y.events := fun _ _ => mem_own rfl
  rcases serves_or_proceeds linked taken with serves | proceeds
  · rcases serves.accepted_cases with ⟨hnone, -, hsame⟩ |
      ⟨id, state, name, levels, plan, -, -, hcontrol, hsome⟩
    · have hnot : ∀ k outcome, .changeEnded k outcome ∉ y.events := fun k outcome h =>
        serves.not_endedWith ((hown k outcome).2 h)
      simp [hnone, hsame, hnot]
    · have hchanging : y.after.changing = true := congrArg Control.changing hcontrol
      simp [hchanging, hsome]
  · simp [proceeds.not_accepted, proceeds.changing_iff, hown]

/-- Ticks do not count from the acceptance of a change until a task ends without a panic. -/
theorem changing_iff {start last : Scheduler} (linked : start.Linked)
    (run : Run Scheduler.move start history last) :
    last.changing = true ↔ (accepted history ≠ [] ∨ start.changing = true) ∧
      ∀ k outcome, EndedWith (sinceAcceptance history) k outcome → outcome = .panicked := by
  induction run with
  | nil => simp [accepted, sinceAcceptance, EndedWith]
  | @snoc history s s' action events run taken ih =>
      have hmove := changing_of_move (y := ⟨s, action, s', events⟩) (linked_of_run linked run) taken
      simp only [ih] at hmove
      rw [hmove, accepted_snoc, sinceAcceptance_snoc]
      cases hsome : acceptance? (⟨s, action, s', events⟩ : Step Scheduler Move SchedulerEvent) with
      | some a => simp [EndedWith]
      | none => simp [EndedWith, or_imp, forall_and, and_assoc]

theorem sinceAcceptance_eq_self (h : accepted history = []) : sinceAcceptance history = history := by
  refine List.rtakeWhile_eq_self_iff.2 fun y hy => ?_
  rw [List.filterMap_eq_nil_iff.1 h y hy]
  rfl

/-! ## After the end of a change -/

section Ended

variable {settings : SchedulerSettings} {engine : EngineSettings} {board : Board} {store : PlanStore}
  {sinks : List String} {last : Scheduler} {outcome : PrepareOutcome}

/-- A task ends once, and activates no other change but its own in doing so. -/
theorem own_of_changeEnded (linked : s.Linked) (taken : s.move action = some (s', events))
    (hended : .changeEnded change outcome ∈ events) : own events = [.changeEnded change outcome] ∨
      outcome = .panicked ∧ own events = [.activated change, .changeEnded change .panicked] := by
  rw [← mem_own rfl] at hended
  rcases serves_or_proceeds linked taken with serves | proceeds
  · exact absurd hended serves.not_endedWith
  · generalize own events = raised at proceeds hended ⊢
    cases proceeds with
    | works _ _ _ hrun => exact absurd (hrun _ hended) Bool.false_ne_true
    | breaksOff =>
        obtain ⟨rfl, rfl⟩ : change = _ ∧ outcome = _ := by simpa using hended
        exact .inr ⟨rfl, rfl⟩
    | panics =>
        obtain ⟨rfl, rfl⟩ : change = _ ∧ outcome = _ := by simpa using hended
        exact .inl rfl
    | ends =>
        obtain ⟨rfl, rfl⟩ : change = _ ∧ outcome = _ := by simpa using hended
        exact .inl rfl
    | _ => simp at hended

theorem acceptance_of_changeEnded (linked : y.before.Linked)
    (taken : y.before.move y.action = some (y.after, y.events))
    (hended : .changeEnded change outcome ∈ y.events) : acceptance? y = none := by
  refine acceptance_eq_none fun id hown => ?_
  rcases own_of_changeEnded linked taken hended with honly | ⟨-, hboth⟩
  · simp [honly] at hown
  · simp [hboth] at hown

theorem changing_of_changeEnded (linked : y.before.Linked)
    (taken : y.before.move y.action = some (y.after, y.events))
    (hended : .changeEnded change outcome ∈ y.events) :
    y.after.changing = true ↔ y.before.changing = true ∧ outcome = .panicked := by
  have honly : ∀ k outcome', .changeEnded k outcome' ∈ y.events → outcome' = outcome := by
    intro k outcome' hother
    rw [← mem_own rfl] at hother
    rcases own_of_changeEnded linked taken hended with hone | ⟨rfl, hboth⟩
    · rw [hone] at hother
      simp only [List.mem_singleton, SchedulerEvent.changeEnded.injEq] at hother
      exact hother.2
    · rw [hboth] at hother
      simp only [List.mem_cons, List.not_mem_nil, or_false, reduceCtorEq, false_or,
        SchedulerEvent.changeEnded.injEq] at hother
      exact hother.2
  rw [changing_of_move linked taken, acceptance_of_changeEnded linked taken hended]
  simp only [Option.isSome_none, Bool.false_eq_true, false_or]
  exact and_congr_right fun _ => ⟨fun h => h change outcome hended, fun h k outcome' hother =>
    (honly k outcome' hother).trans h⟩

theorem last_of_changeEnded (accounted : Accounted history y.before)
    (taken : y.before.move y.action = some (y.after, y.events))
    (hended : .changeEnded change outcome ∈ y.events) :
    y.before.InFlight change ∧ ∃ a, (accepted history).getLast? = some a ∧ a.change = change := by
  have linked := accounted.orderly.linked
  have hflight := (inFlight_of_changeEnded linked taken hended).1
  obtain ⟨flight, preparing, phase, hids, -⟩ := accounted.listed.phase
  obtain rfl := phase.eq_of_inFlight accounted.orderly.toSingle hflight
  refine ⟨hflight, ?_⟩
  have hlast : ((accepted history).map (·.change)).getLast? = some change := by
    rw [hids, List.getLast?_concat]
  rw [List.getLast?_map] at hlast
  exact Option.map_eq_some_iff.1 hlast

/-- Once the change accepted last has ended, nothing is in flight. -/
theorem idle_of_ended
    (run : Run Scheduler.move (create settings (.create engine board) store sinks)
      (earlier ++ y :: later) last)
    (stays : ∀ z ∈ earlier ++ y :: later, Stays z)
    (hended : .changeEnded change outcome ∈ y.events) (quiet : accepted later = []) (k : Nat) :
    ¬ last.InFlight k := by
  obtain ⟨before, taken, -⟩ := run.taken
  have accounted := accounted_of_run before fun z hz => stays z (List.mem_append_left _ hz)
  have hnone := acceptance_of_changeEnded accounted.orderly.linked taken hended
  obtain ⟨-, a, hlast, rfl⟩ := last_of_changeEnded accounted taken hended
  have hsame : accepted (earlier ++ y :: later) = accepted earlier := by
    simp only [accepted] at quiet ⊢
    rw [List.filterMap_append, List.filterMap_cons_none hnone, quiet, List.append_nil]
  rw [← hsame] at hlast
  exact (accounted_of_run run stays).listed.idle hlast ⟨y, by simp, hended⟩ k

/-- From then on no change is activated and none ends. -/
theorem still_of_ended
    (run : Run Scheduler.move (create settings (.create engine board) store sinks)
      (earlier ++ y :: later) last)
    (stays : ∀ z ∈ earlier ++ y :: later, Stays z)
    (hended : .changeEnded change outcome ∈ y.events) (quiet : accepted later = []) :
    (∀ k, ¬ Activated later k) ∧ ∀ k outcome', ¬ EndedWith later k outcome' := by
  have idle : ∀ z ∈ later, (∀ k, ¬ z.before.InFlight k) ∧ z.before.Linked ∧
      z.before.move z.action = some (z.after, z.events) := by
    intro z hz
    obtain ⟨pre, post, rfl⟩ := List.append_of_mem hz
    rw [← List.cons_append, ← List.append_assoc] at run stays
    obtain ⟨before, taken, -⟩ := run.taken
    rw [accepted, List.filterMap_append, List.append_eq_nil_iff] at quiet
    exact ⟨idle_of_ended before (fun x hx => stays x (List.mem_append_left _ hx)) hended quiet.1,
      linked_of_run (linked_create ..) before, taken⟩
  constructor
  · rintro k ⟨z, hz, hactivated⟩
    obtain ⟨hidle, -, taken⟩ := idle z hz
    obtain ⟨c, hc, hopen⟩ := (moved taken).activated k hactivated
    exact hidle k ⟨c, hc, hopen⟩
  · rintro k outcome' ⟨z, hz, hover⟩
    obtain ⟨hidle, linked, taken⟩ := idle z hz
    exact hidle k (inFlight_of_changeEnded linked taken hover).1

section Accepted

variable {between : History} {x : Step Scheduler Move SchedulerEvent} {a : Acceptance}

/-- From the acceptance of a change on nothing else is activated until the next one is accepted. -/
theorem eq_of_activated_since
    (run : Run Scheduler.move (create settings (.create engine board) store sinks)
      (earlier ++ x :: (between ++ y :: later)) last)
    (stays : ∀ z ∈ earlier ++ x :: (between ++ y :: later), Stays z)
    (haccepted : acceptance? x = some a) (hended : .changeEnded a.change outcome ∈ y.events)
    (quiet : accepted later = []) {k : Nat} (hk : Activated (between ++ y :: later) k) :
    k = a.change := by
  have hsplit : earlier ++ x :: (between ++ y :: later) =
      (earlier ++ x :: between) ++ y :: later := by simp
  rw [hsplit] at run stays
  obtain ⟨before, taken, -⟩ := run.taken
  obtain ⟨z, hz, hactivated⟩ := hk
  rcases List.mem_append.1 hz with hz | hz
  · have hafter := Run.snoc_iff.2 ⟨before, taken, rfl⟩
    refine eq_of_activated hafter (fun w hw => stays w ?_) haccepted hended ⟨z, hz, hactivated⟩
    simp only [List.mem_append, List.mem_cons, List.not_mem_nil, or_false] at hw ⊢
    tauto
  · rcases List.mem_cons.1 hz with rfl | hz
    · rw [← mem_own rfl] at hactivated
      have linked := linked_of_run (linked_create settings engine board store sinks) before
      rcases own_of_changeEnded linked taken hended with hone | ⟨-, hboth⟩
      · simp [hone] at hactivated
      · simpa [hboth] using hactivated
    · exact absurd ⟨z, hz, hactivated⟩ ((still_of_ended run stays hended quiet).1 k)

theorem scheduled_of_known (accounted : Accounted history last) {b : Acceptance}
    (ha : a ∈ accepted history) (hb : b ∈ accepted history) (hsame : a.change = b.change) :
    a.scheduled = b.scheduled := by
  obtain ⟨c, hc, -, hscheduled⟩ := accounted.listed.known a ha
  obtain ⟨d, hd, -, hscheduled'⟩ := accounted.listed.known b hb
  rw [hsame, hd] at hc
  obtain rfl := Option.some.inj hc
  exact hscheduled.symm.trans hscheduled'

/-- A change that ends leaves its own levels scheduled, or those from before. -/
theorem active_of_ended
    (run : Run Scheduler.move (create settings (.create engine board) store sinks)
      (earlier ++ x :: (between ++ y :: later)) last)
    (stays : ∀ z ∈ earlier ++ x :: (between ++ y :: later), Stays z)
    (haccepted : acceptance? x = some a) (hended : .changeEnded a.change outcome ∈ y.events)
    (quiet : accepted later = []) :
    (Activated (between ++ y :: later) a.change → last.active = a.scheduled) ∧
      (¬ Activated (between ++ y :: later) a.change → last.active = x.before.active) := by
  have honly := fun k => eq_of_activated_since run stays haccepted hended quiet (k := k)
  constructor
  · intro hactivated
    have recorded := recorded_of_run run
    have hne : activations (between ++ y :: later) ≠ [] :=
      List.ne_nil_of_mem (mem_activations.2 hactivated)
    have hlast : (activations (earlier ++ x :: (between ++ y :: later))).getLast? =
        some a.change := by
      rw [List.append_cons, activations_append, List.getLast?_append_of_ne_nil _ hne,
        List.getLast?_eq_some_getLast hne]
      exact congrArg some (honly _ (mem_activations.1 (List.getLast_mem hne)))
    obtain ⟨b, hb⟩ := recorded.activated _ (List.mem_of_getLast? hlast)
    rw [recorded.active, inForce_of_getLast hlast hb]
    obtain ⟨hmem, hnumber⟩ := mem_of_acceptanceOf? hb
    exact scheduled_of_known (accounted_of_run run stays) hmem
      (List.mem_filterMap.2 ⟨x, by simp, haccepted⟩) hnumber
  · intro hnone
    obtain ⟨-, accepting, following⟩ := run.taken
    refine (unchanged_of_run (Run.cons accepting following) ?_).1
    rintro k ⟨z, hz, hk⟩
    rcases List.mem_cons.1 hz with rfl | hz
    · exact quiet_of_acceptance haccepted k hk
    · have hk : Activated (between ++ y :: later) k := ⟨z, hz, hk⟩
      exact hnone (honly k hk ▸ hk)

/-- It also ends a pause, if it has been activated. -/
theorem paused_of_ended
    (run : Run Scheduler.move (create settings (.create engine board) store sinks)
      (earlier ++ x :: (between ++ y :: later)) last)
    (stays : ∀ z ∈ earlier ++ x :: (between ++ y :: later), Stays z)
    (haccepted : acceptance? x = some a) (hended : .changeEnded a.change outcome ∈ y.events)
    (quiet : accepted later = [])
    (unpaused : ∀ z ∈ between ++ y :: later, z.action ≠ .act .pause) :
    last.paused = true ↔
      x.before.paused = true ∧ ¬ Activated (between ++ y :: later) a.change := by
  obtain ⟨-, accepting, following⟩ := run.taken
  have hpaused := paused_iff following
  rw [sincePause_eq_self unpaused] at hpaused
  rw [hpaused, (moved accepting).paused]
  have hnone : ¬ ∃ z ∈ between ++ y :: later, z.action = .act .pause := by
    rintro ⟨z, hz, hpause⟩
    exact unpaused z hz hpause
  simp only [not_pause_of_acceptance accepting haccepted, quiet_of_acceptance haccepted, hnone,
    false_or, not_false_iff, implies_true, and_true, or_false]
  refine and_congr_right fun _ => ⟨fun h => h a.change, fun h k hk => h ?_⟩
  exact eq_of_activated_since run stays haccepted hended quiet hk ▸ hk

end Accepted

/-- The task of a change that was accepted is over if nothing is in flight. -/
theorem ended_of_idle {x : Step Scheduler Move SchedulerEvent}
    (run : Run Scheduler.move (create settings (.create engine board) store sinks)
      (earlier ++ x :: later) last)
    (stays : ∀ z ∈ earlier ++ x :: later, Stays z) {a : Acceptance}
    (haccepted : acceptance? x = some a) (idle : ∀ k, ¬ last.InFlight k) :
    ∃ between y rest outcome, later = between ++ y :: rest ∧
      .changeEnded a.change outcome ∈ y.events := by
  obtain ⟨before, taken, -⟩ := run.taken
  have linked := linked_of_run (linked_create settings engine board store sinks) before
  obtain ⟨flight, preparing, phase, hids, -⟩ := (accounted_of_run run stays).listed.phase
  have hflight : flight = [] := List.eq_nil_iff_forall_not_mem.2 fun k hk =>
    idle k (phase.inFlight hk)
  have hover : a.change ∈ ended (earlier ++ x :: later) := by
    rw [← List.append_nil (ended _), ← hflight, ← hids]
    exact List.mem_map_of_mem (List.mem_filterMap.2 ⟨x, by simp, haccepted⟩)
  obtain ⟨y, hy, hended⟩ := List.mem_flatMap.1 hover
  obtain ⟨event, hevent, hchange⟩ := List.mem_filterMap.1 hended
  obtain ⟨outcome, rfl⟩ : ∃ outcome, event = .changeEnded a.change outcome := by
    cases event with
    | changeEnded k outcome => exact ⟨outcome, by rw [← Option.some.inj hchange]⟩
    | _ => contradiction
  rcases List.mem_append.1 hy with hy | hy
  · -- its number was still free when it was accepted
    have listed := (accounted_of_run before fun z hz => stays z (List.mem_append_left _ hz)).listed
    obtain ⟨c, hc, -⟩ := listed.concluded _ _ ⟨y, hy, hevent⟩
    have hnumber := (nextId_of_acceptance linked taken haccepted).1
    exact absurd (linked.changes _ c hc) (by omega)
  · rcases List.mem_cons.1 hy with rfl | hy
    · simp [acceptance_of_changeEnded linked taken hevent] at haccepted
    · obtain ⟨between, rest, rfl⟩ := List.append_of_mem hy
      exact ⟨between, y, rest, outcome, rfl, hevent⟩

/-- A change is not activated before it is accepted. -/
theorem activated_since_accepted {x : Step Scheduler Move SchedulerEvent}
    (run : Run Scheduler.move (create settings (.create engine board) store sinks)
      (earlier ++ x :: later) last) {a : Acceptance} (haccepted : acceptance? x = some a) :
    Activated (earlier ++ x :: later) a.change ↔ Activated later a.change := by
  refine ⟨?_, fun h => h.mono fun z hz => by simp [hz]⟩
  rintro ⟨z, hz, hactivated⟩
  obtain ⟨before, taken, -⟩ := run.taken
  have recorded := recorded_of_run before
  have hnumber := (nextId_of_acceptance (linked_of_run (linked_create ..) before) taken haccepted).1
  rcases List.mem_append.1 hz with hz | hz
  · obtain ⟨b, hb⟩ := recorded.activated a.change (mem_activations.2 ⟨z, hz, hactivated⟩)
    obtain ⟨hmem, hsame⟩ := mem_of_acceptanceOf? hb
    have hfresh := recorded.fresh b hmem
    omega
  · rcases List.mem_cons.1 hz with rfl | hz
    · exact absurd hactivated (quiet_of_acceptance haccepted _)
    · exact ⟨z, hz, hactivated⟩

/-- Once the change accepted last is over, it is in force, or what was before it still is. -/
theorem settled_of_idle {x : Step Scheduler Move SchedulerEvent}
    (run : Run Scheduler.move (create settings (.create engine board) store sinks)
      (earlier ++ x :: later) last)
    (stays : ∀ z ∈ earlier ++ x :: later, Stays z) {a : Acceptance}
    (haccepted : acceptance? x = some a) (quiet : accepted later = [])
    (unpaused : ∀ z ∈ later, z.action ≠ .act .pause) (idle : ∀ k, ¬ last.InFlight k) :
    (Activated later a.change → last.active = a.scheduled ∧ last.paused = false) ∧
      (¬ Activated later a.change →
        last.active = x.before.active ∧ last.paused = x.before.paused) := by
  obtain ⟨between, y, rest, outcome, rfl, hended⟩ := ended_of_idle run stays haccepted idle
  have hrest : accepted rest = [] := by
    rw [accepted, List.filterMap_append, List.append_eq_nil_iff] at quiet
    exact List.filterMap_eq_nil_iff.2 fun z hz =>
      List.filterMap_eq_nil_iff.1 quiet.2 z (List.mem_cons_of_mem _ hz)
  obtain ⟨hactive, hsame⟩ := active_of_ended run stays haccepted hended hrest
  have hpaused := paused_of_ended run stays haccepted hended hrest unpaused
  constructor
  · intro hactivated
    refine ⟨hactive hactivated, ?_⟩
    simp [← Bool.not_eq_true, hpaused, hactivated]
  · intro hnone
    refine ⟨hsame hnone, ?_⟩
    rw [Bool.eq_iff_iff, hpaused, and_iff_left hnone]

/-- What the end of a change means for the ticks that follow, until another one is accepted. -/
theorem ticks_after_change {between : History} {x : Step Scheduler Move SchedulerEvent}
    (run : Run Scheduler.move (create settings (.create engine board) store sinks)
      (earlier ++ x :: (between ++ y :: later)) last) {a : Acceptance}
    (haccepted : acceptance? x = some a) (hended : .changeEnded a.change outcome ∈ y.events)
    (quiet : accepted later = []) :
    (outcome ≠ .panicked → last.changing = false ∧ ∀ tick, last.orderAt tick =
      if last.paused then none
      else (inForce (earlier ++ x :: (between ++ y :: later))).orderAt tick) ∧
    ((∀ z ∈ earlier ++ x :: (between ++ y :: later), Stays z) →
      (outcome = .panicked → last.changing = true ∧ ∀ tick, last.orderAt tick = none) ∧
      (Activated (between ++ y :: later) a.change → last.active = a.scheduled) ∧
      (¬ Activated (between ++ y :: later) a.change → last.active = x.before.active)) := by
  have active := (recorded_of_run run).active
  have hsplit : earlier ++ x :: (between ++ y :: later) =
      (earlier ++ x :: between) ++ y :: later := by simp
  have run' := hsplit ▸ run
  obtain ⟨before, taken, following⟩ := run'.taken
  have linked := linked_of_run (linked_create settings engine board store sinks) before
  have hy := changing_of_changeEnded linked taken hended
  have hlast := changing_iff (linked.move taken) following
  rw [sinceAcceptance_eq_self quiet, quiet] at hlast
  simp only [ne_eq, not_true_eq_false, false_or, hy] at hlast
  refine ⟨fun hother => ?_, fun stays => ⟨?_, active_of_ended run stays haccepted hended quiet⟩⟩
  · have hchanging : last.changing = false := by simp [← Bool.not_eq_true, hlast, hother]
    refine ⟨hchanging, fun tick => ?_⟩
    rw [orderAt_eq, hchanging, Bool.or_false, active]
  · rintro rfl
    rw [hsplit] at stays
    have accounted := accounted_of_run before fun z hz => stays z (List.mem_append_left _ hz)
    have hflight := (last_of_changeEnded accounted taken hended).1
    have hchanging : last.changing = true := hlast.2
      ⟨⟨(accounted.orderly.tracked _ hflight).1, rfl⟩, fun k outcome hover =>
        absurd hover ((still_of_ended run' stays hended quiet).2 k outcome)⟩
    exact ⟨hchanging, fun tick => by simp [orderAt_eq, hchanging]⟩

end Ended

/-- A plan is live, and the collector that another change asks to prepare gives this answer. -/
def answeredRun (answer : CollectorPrepared) : History × Scheduler :=
  Run.follow move (create {} (.create {} ∅) oneDomain [])
    (supersededAfter (allPrepared ++ [.swap 0 .all, .cleanUp 0 none, .prune 0]) ++
      [.act (.reportChange 1), .act (.endChange 1), .act (.resume 2), .act (.beginChange 3),
        .act (.engine (.pinged 1 .answered)), .act (.engine (.copyLive 1)),
        .act (.engine (.visit 1 .created false)), .act (.engine (.collectorPrepared 1 answer)),
        .act (.reportChange 3), .act (.endChange 3)])

def failedRun : History × Scheduler := answeredRun (.failed ["no access"])

private theorem accepting_failedRun : 15 < failedRun.1.length := by decide +kernel

private theorem ending_failedRun : 22 < failedRun.1.length := by decide +kernel

theorem ticks_after_change_failed :
    ∃ earlier x between y a, failedRun.1 = earlier ++ x :: (between ++ [y]) ∧
      acceptance? x = some a ∧ a.change = 3 ∧
      .changeEnded 3 (.failed ["preparing cpu collector", "no access"]) ∈ y.events ∧
      failedRun.2.changing = false ∧ failedRun.2.active = x.before.active ∧
      (failedRun.2.orderAt 1).map (fun order => (order.level, order.state)) =
        some ("kpi", .active) := by
  have hrun : Run move (create {} (.create {} ∅) oneDomain []) failedRun.1 failedRun.2 :=
    Run.of_follow ..
  have hstays : ∀ z ∈ failedRun.1, Stays z := stays_of_none_dropped (by decide +kernel)
  have hsplit : failedRun.1 = failedRun.1.take 15 ++ failedRun.1.get ⟨15, accepting_failedRun⟩ ::
      ((failedRun.1.drop 16).take 6 ++ [failedRun.1.get ⟨22, ending_failedRun⟩]) := by
    have hrest : failedRun.1.drop 23 = [] := List.drop_eq_nil_of_le (by decide +kernel)
    rw [← hrest, List.get_eq_getElem, List.get_eq_getElem, ← List.drop_eq_getElem_cons,
      ← List.drop_drop (i := 6) (j := 16), List.take_append_drop, ← List.drop_eq_getElem_cons,
      List.take_append_drop]
  have haccepted : (acceptance? (failedRun.1.get ⟨15, accepting_failedRun⟩)).map (·.change) =
      some 3 := by decide +kernel
  have hended : .changeEnded 3 (.failed ["preparing cpu collector", "no access"]) ∈
      (failedRun.1.get ⟨22, ending_failedRun⟩).events := by decide +kernel
  have hnone : activations ((failedRun.1.drop 16).take 6 ++
      [failedRun.1.get ⟨22, ending_failedRun⟩]) = [] := by decide +kernel
  obtain ⟨a, ha, hchange⟩ := Option.map_eq_some_iff.1 haccepted
  rw [hsplit] at hrun hstays
  rw [← hchange] at hended
  obtain ⟨resumes, remains⟩ := ticks_after_change hrun ha hended rfl
  refine ⟨_, _, _, _, a, hsplit, ha, hchange, hchange ▸ hended, (resumes (by simp)).1,
    (remains hstays).2.2 ?_, by decide +kernel⟩
  rw [← mem_activations, hnone]
  exact List.not_mem_nil

/-- No change is in flight and nothing is paused, but the levels in force are not collected. -/
theorem no_ticks_after_panic :
    Run move (create {} (.create {} ∅) oneDomain []) (answeredRun .panicked).1
        (answeredRun .panicked).2 ∧
      (∃ y ∈ (answeredRun .panicked).1, .changeEnded 3 .panicked ∈ y.events) ∧
      (∀ change, ¬ (answeredRun .panicked).2.InFlight change) ∧
      (answeredRun .panicked).2.paused = false ∧ (answeredRun .panicked).2.changing = true ∧
      ((answeredRun .panicked).2.active.orderAt 1).map (·.level) = some "kpi" ∧
      (answeredRun .panicked).2.orderAt 1 = none := by
  have hover : ∀ e ∈ (answeredRun .panicked).2.changes.toList, e.2.stage = .ended := by
    decide +kernel
  refine ⟨Run.of_follow .., by decide +kernel, ?_, by decide +kernel, by decide +kernel,
    by decide +kernel, by decide +kernel⟩
  rintro change ⟨c, hc, hopen⟩
  exact hopen (hover (change, c) (Table.get?_eq_some_iff.1 hc))

end Scheduler

end Cadence
