import Cadence.Proofs.Scheduler.Driving
import Cadence.Proofs.Scheduler.Resuming

/-!
# Changes whose end nobody waits for

Whoever has the lock takes the change accepted last over and waits for its end.
A caller who gives up in that wait leaves the change an orphan: it is cancelled,
but nobody knows of it any more.  Calls that are given up elsewhere leave nothing
behind.  So whatever goes wrong with a change that has been accepted before goes
back to an orphan: as long as there is none, a change in flight is known until it
ends, it ends before another one is accepted and before a run gives the lock back,
and no tick counts meanwhile.
-/

namespace Cadence.Scheduler

variable {s s' : Scheduler} {action : Move} {id k : Nat} {raised : List SchedulerEvent}
  {history : History} {y : Step Scheduler Move SchedulerEvent}

/-- The change whose end a caller has waited for who gives up. -/
def orphaned? (y : Step Scheduler Move SchedulerEvent) : Option Nat :=
  match y.action with
  | .act (.dropCaller caller) =>
      match y.before.callers.get? caller with
      | some { request := .change .., stage := .awaiting change } => some change
      | _ => none
  | _ => none

def orphans (history : History) : List Nat := history.filterMap orphaned?

/-- Somebody will hear of the end of the change before anything else is begun. -/
def Tracks (s : Scheduler) (change : Nat) : Prop :=
  s.latest = some change ∨ ∃ id request, s.Awaits id request change

theorem orphans_snoc : orphans (history ++ [y]) = orphans history ++ (orphaned? y).toList := by
  rw [orphans, List.filterMap_append]
  cases h : orphaned? y <;> simp [orphans, h]

theorem mem_orphans_snoc :
    k ∈ orphans (history ++ [y]) ↔ k ∈ orphans history ∨ orphaned? y = some k := by
  rw [orphans_snoc, List.mem_append, Option.mem_toList]

theorem orphaned?_eq_some (h : orphaned? y = some k) :
    ∃ caller state name, y.action = .act (.dropCaller caller) ∧
      y.before.Awaits caller (.change state name) k := by
  unfold orphaned? at h
  split at h
  · next caller haction =>
      split at h
      · next state name change hcaller =>
          obtain rfl := Option.some.inj h
          exact ⟨caller, state, name, haction, hcaller⟩
      · contradiction
  · contradiction

theorem orphaned?_of_awaits {caller : Nat} {state : InstanceState} {name : String}
    (haction : y.action = .act (.dropCaller caller))
    (awaits : y.before.Awaits caller (.change state name) k) : orphaned? y = some k := by
  rw [Awaits] at awaits
  simp [orphaned?, haction, awaits]

/-- Nobody knows of two changes. -/
theorem Queued.tracks_unique (h : s.Queued) {k' : Nat} (tracks : s.Tracks k)
    (tracks' : s.Tracks k') : k = k' := by
  have latest {k k' id : Nat} {request : ChangeRequest} (hlatest : s.latest = some k)
      (awaits : s.Awaits id request k') : k = k' := by
    have hfront := (h.front id request k' awaits).2
    rw [hlatest] at hfront
    split at hfront
    · exact Option.some.inj hfront
    · contradiction
  rcases tracks with hlatest | ⟨id, request, awaits⟩ <;>
    rcases tracks' with hlatest' | ⟨id', request', awaits'⟩
  · exact Option.some.inj (hlatest.symm.trans hlatest')
  · exact latest hlatest awaits'
  · exact (latest hlatest' awaits).symm
  · have hid : id = id' := Option.some.inj
      ((h.front id request k awaits).1.symm.trans (h.front id' request' k' awaits').1)
    subst hid
    have hsame := Option.some.inj (awaits.symm.trans awaits')
    simpa using congrArg Caller.stage hsame

/-- Whoever's turn it is does not wait for a change in flight any more. -/
theorem Queued.not_awaits_of_turn (h : s.Queued) {request : ChangeRequest}
    (turn : s.Turn id request action) (hflight : s.InFlight k) :
    ¬ ∃ other request', s.Awaits other request' k := by
  rintro ⟨other, request', awaits⟩
  obtain rfl := h.alone turn awaits
  cases turn with
  | first _ hcaller => simp [Awaits, hcaller] at awaits
  | again hcaller hended =>
      have hsame := Option.some.inj (hcaller.symm.trans awaits)
      obtain rfl : _ = k := by simpa using congrArg Caller.stage hsame
      exact hasEnded_iff.1 hended hflight

theorem Queued.latest_of_turn (h : s.Queued) {request : ChangeRequest}
    (turn : s.Turn id request action) (hflight : s.InFlight k) (tracks : s.Tracks k) :
    s.latest = some k :=
  tracks.resolve_right (h.not_awaits_of_turn turn hflight)

/-- When another change is accepted or a run gives the lock back, no change in flight is tracked. -/
theorem Queued.not_tracks_of_turn (h : s.Queued) {request : ChangeRequest}
    (turn : s.Turn id request action) (hlatest : action = .act (.grant id) → s.latest = none)
    (hflight : s.InFlight k) : ¬ s.Tracks k := by
  intro tracks
  have hsome := h.latest_of_turn turn hflight tracks
  cases turn with
  | first => simp [hlatest rfl] at hsome
  | again hcaller hended =>
      have hfront := (h.front id request _ hcaller).2
      rw [hsome] at hfront
      split at hfront
      · obtain rfl := Option.some.inj hfront
        exact hasEnded_iff.1 hended hflight
      · contradiction

/-! ## What a move does to what is tracked -/

theorem awaits_of_erase {caller : Nat} {request : ChangeRequest}
    (hcallers : s'.callers = s.callers.erase id) (awaits : s'.Awaits caller request k) :
    s.Awaits caller request k ∧ caller ≠ id := by
  rw [Awaits, hcallers, Table.get?_erase] at awaits
  split at awaits
  · contradiction
  · next hother => exact ⟨awaits, hother⟩

theorem awaits_erase {caller : Nat} {request : ChangeRequest}
    (hcallers : s'.callers = s.callers.erase id) (hother : caller ≠ id)
    (awaits : s.Awaits caller request k) : s'.Awaits caller request k := by
  rw [Awaits, hcallers, Table.get?_erase, if_neg hother]
  exact awaits

theorem awaits_of_insert {caller k' : Nat} {request request' : ChangeRequest}
    (hcallers : s'.callers = s.callers.insert id { request, stage := .awaiting k })
    (awaits : s'.Awaits caller request' k') :
    caller = id ∧ request' = request ∧ k' = k ∨ s.Awaits caller request' k' := by
  rw [Awaits, hcallers, Table.get?_insert] at awaits
  split at awaits
  · next hcaller =>
      have hsame : request = request' ∧ k = k' := by simpa using awaits
      exact .inl ⟨hcaller, hsame.1.symm, hsame.2.symm⟩
  · exact .inr awaits

theorem Queued.awaits_call (h : s.Queued) {caller : Nat} {request request' : ChangeRequest}
    (hcallers : s'.callers = s.callers.insert s.nextId { request }) :
    s'.Awaits caller request' k ↔ s.Awaits caller request' k := by
  rw [Awaits, hcallers, Table.get?_insert]
  split
  · next hcaller =>
      constructor
      · intro awaits
        simp at awaits
      · intro awaits
        have hold := h.callers caller _ awaits
        omega
  · rfl

/-- The change of a caller that begins to wait is the one accepted last. -/
theorem Serves.awaits_before (queued : s.Queued) (serves : Serves s s' action raised)
    {caller : Nat} {request : ChangeRequest} (awaits : s'.Awaits caller request k) :
    s.Awaits caller request k ∨ s.latest = some k ∧
      (request ≠ .wait → s'.changes = s.changes.modify k (fun c => { c with cancelled := true })) := by
  cases serves with
  | asks _ hcontrol => exact .inl ((queued.awaits_call (congrArg Control.callers hcontrol)).1 awaits)
  | refuses _ _ hcontrol =>
      exact .inl (awaits_of_erase (congrArg Control.callers hcontrol) awaits).1
  | accepts _ _ _ hcontrol =>
      exact .inl (awaits_of_erase (congrArg Control.callers hcontrol) awaits).1
  | awaits _ _ _ _ hlatest hcontrol =>
      rcases awaits_of_insert (congrArg Control.callers hcontrol) awaits with ⟨-, -, rfl⟩ | before
      · exact .inr ⟨hlatest, fun _ => congrArg Control.changes hcontrol⟩
      · exact .inl before
  | joins _ _ hlatest hcontrol =>
      rcases awaits_of_insert (congrArg Control.callers hcontrol) awaits with ⟨-, hrequest, rfl⟩ | before
      · exact .inr ⟨hlatest, fun hother => absurd hrequest hother⟩
      · exact .inl before
  | answers _ _ hcontrol =>
      exact .inl (awaits_of_erase (congrArg Control.callers hcontrol) awaits).1
  | closes _ _ hcontrol =>
      exact .inl (awaits_of_erase (congrArg Control.callers hcontrol) awaits).1
  | drops _ _ hcontrol =>
      exact .inl (awaits_of_erase (congrArg Control.callers hcontrol) awaits).1

theorem Serves.tracks_before (queued : s.Queued) (serves : Serves s s' action raised)
    (tracks : s'.Tracks k) : s.Tracks k ∨ k = s.nextId ∧ s'.nextId = s.nextId + 1 := by
  rcases tracks with hlatest | ⟨caller, request, awaits⟩
  · cases serves with
    | asks _ hcontrol => exact .inl (.inl ((congrArg Control.latest hcontrol).symm.trans hlatest))
    | refuses _ _ hcontrol =>
        exact .inl (.inl ((congrArg Control.latest hcontrol).symm.trans hlatest))
    | accepts _ _ _ hcontrol =>
        have hnew : s'.latest = some s.nextId := congrArg Control.latest hcontrol
        exact .inr ⟨Option.some.inj (hlatest.symm.trans hnew), congrArg Control.nextId hcontrol⟩
    | awaits _ _ _ _ _ hcontrol =>
        have hnone : s'.latest = none := congrArg Control.latest hcontrol
        simp [hnone] at hlatest
    | joins _ _ _ hcontrol =>
        exact .inl (.inl ((congrArg Control.latest hcontrol).symm.trans hlatest))
    | answers _ _ hcontrol =>
        have hnone : s'.latest = none := congrArg Control.latest hcontrol
        simp [hnone] at hlatest
    | closes _ _ hcontrol =>
        exact .inl (.inl ((congrArg Control.latest hcontrol).symm.trans hlatest))
    | drops _ _ hcontrol => exact .inl (.inl ((congrArg Control.latest hcontrol).symm.trans hlatest))
  · rcases serves.awaits_before queued awaits with before | ⟨hlatest, -⟩
    · exact .inl (.inr ⟨caller, request, before⟩)
    · exact .inl (.inl hlatest)

/-- What is tracked stays so until it ends, unless the caller who waits for it gives up. -/
theorem Serves.tracks_after (queued : y.before.Queued)
    (serves : Serves y.before y.after y.action raised) (hflight : y.before.InFlight k)
    (tracks : y.before.Tracks k) : y.after.Tracks k ∨ orphaned? y = some k := by
  have released {id : Nat} {request : ChangeRequest} (turn : y.before.Turn id request y.action)
      (hlatest : y.after.latest = y.before.latest) : y.after.Tracks k :=
    .inl (hlatest.trans (queued.latest_of_turn turn hflight tracks))
  generalize haction : y.action = action at serves released
  cases serves with
  | asks _ hcontrol =>
      rcases tracks with hlatest | ⟨caller, request, awaits⟩
      · exact .inl (.inl ((congrArg Control.latest hcontrol).trans hlatest))
      · exact .inl (.inr ⟨caller, request,
          (queued.awaits_call (congrArg Control.callers hcontrol)).2 awaits⟩)
  | refuses turn _ hcontrol => exact .inl (released turn (congrArg Control.latest hcontrol))
  | accepts turn hlatest => exact absurd tracks (queued.not_tracks_of_turn turn hlatest hflight)
  | @awaits id change request hhead hcaller _ _ hlatest hcontrol =>
      have hsome := queued.latest_of_turn (.first hhead hcaller) hflight tracks
      obtain rfl := Option.some.inj (hlatest.symm.trans hsome)
      have hcallers : y.after.callers =
          y.before.callers.insert id { request, stage := .awaiting change } :=
        congrArg Control.callers hcontrol
      refine .inl (.inr ⟨id, request, ?_⟩)
      rw [Awaits, hcallers, Table.get?_insert_self]
  | joins hhead hcaller _ hcontrol =>
      exact .inl (released (.first hhead hcaller) (congrArg Control.latest hcontrol))
  | answers turn hlatest => exact absurd tracks (queued.not_tracks_of_turn turn hlatest hflight)
  | closes turn _ hcontrol => exact .inl (released turn (congrArg Control.latest hcontrol))
  | @drops id asking hcaller hrequest hcontrol =>
      have hlatest : y.after.latest = y.before.latest := congrArg Control.latest hcontrol
      rcases tracks with hsome | ⟨caller, request, awaits⟩
      · exact .inl (.inl (hlatest.trans hsome))
      · by_cases hid : caller = id
        · subst hid
          obtain rfl : asking = { request, stage := .awaiting k } :=
            Option.some.inj (hcaller.symm.trans awaits)
          cases request with
          | change state name => exact .inr (orphaned?_of_awaits haction awaits)
          | wait => exact .inl (.inl (hlatest.trans (queued.front caller .wait k awaits).2))
          | shutdown => exact absurd rfl hrequest
        · exact .inl (.inr ⟨caller, request,
            awaits_erase (congrArg Control.callers hcontrol) hid awaits⟩)

/-- Nobody else knows of a change that is left an orphan. -/
theorem not_tracks_of_orphaned (queued : y.before.Queued)
    (serves : Serves y.before y.after y.action raised) (horphan : orphaned? y = some k) :
    y.before.Tracks k ∧ ¬ y.after.Tracks k := by
  obtain ⟨caller, state, name, haction, awaits⟩ := orphaned?_eq_some horphan
  refine ⟨.inr ⟨caller, _, awaits⟩, ?_⟩
  rw [haction] at serves
  cases serves with
  | asks hkind => rcases hkind with hkind | ⟨hkind, -⟩ <;> simp at hkind
  | refuses turn => cases turn
  | accepts turn => cases turn
  | answers turn => cases turn
  | closes turn => cases turn
  | drops _ _ hcontrol =>
      have hfront := queued.front caller _ k awaits
      rintro (hlatest | ⟨other, request, awaits'⟩)
      · have hsame : y.after.latest = y.before.latest := congrArg Control.latest hcontrol
        rw [hsame, hfront.2] at hlatest
        simp at hlatest
      · obtain ⟨before, hother⟩ := awaits_of_erase (congrArg Control.callers hcontrol) awaits'
        exact hother (Option.some.inj ((queued.front other _ k before).1.symm.trans hfront.1))

theorem Proceeds.tracks_iff (proceeds : Proceeds s s' action raised) : s'.Tracks k ↔ s.Tracks k := by
  obtain ⟨hcallers, -, hlatest, -⟩ := proceeds.frame
  simp only [Tracks, Awaits, hcallers, hlatest]

theorem Proceeds.not_orphaned (proceeds : Proceeds y.before y.after y.action raised) :
    orphaned? y = none := by
  cases horphan : orphaned? y with
  | none => rfl
  | some k =>
      obtain ⟨caller, _, _, haction, -⟩ := orphaned?_eq_some horphan
      rw [haction] at proceeds
      cases proceeds with
      | works hwork => contradiction

theorem Proceeds.inFlight_before (proceeds : Proceeds s s' action raised) (hflight : s'.InFlight k) :
    s.InFlight k := by
  cases proceeds with
  | works _ hcontrol => exact inFlight_of_eq (congrArg Control.changes hcontrol) hflight
  | pauses hcontrol => exact inFlight_of_eq (congrArg Control.changes hcontrol) hflight
  | begins hc hspawned hcontrol =>
      exact (inFlight_of_insert hc (by simp [hspawned]) (congrArg Control.changes hcontrol) hflight).1
  | goesOn hcontrol => exact inFlight_of_eq (congrArg Control.changes hcontrol) hflight
  | swaps hcontrol => exact inFlight_of_eq (congrArg Control.changes hcontrol) hflight
  | goesLive _ _ _ _ _ _ hcontrol =>
      exact inFlight_of_eq (congrArg Control.changes hcontrol) hflight
  | breaksOff _ _ _ _ hc happlying hcontrol =>
      exact (inFlight_of_insert hc (by simp [happlying]) (congrArg Control.changes hcontrol) hflight).1
  | panics _ _ _ _ hc happlying hcontrol =>
      exact (inFlight_of_insert hc (by simp [happlying]) (congrArg Control.changes hcontrol) hflight).1
  | concludes _ _ _ _ _ hc happlying hcontrol =>
      exact (inFlight_of_insert hc (by simp [happlying]) (congrArg Control.changes hcontrol) hflight).1
  | reports hc hstage hcontrol =>
      exact (inFlight_of_insert hc (by simp [hstage]) (congrArg Control.changes hcontrol) hflight).1
  | ends hc hstage _ hcontrol =>
      exact (inFlight_of_insert hc (by simp [hstage]) (congrArg Control.changes hcontrol) hflight).1

theorem Proceeds.inFlight_of_changeEnded (proceeds : Proceeds s s' action raised)
    {outcome : PrepareOutcome} (hended : .changeEnded k outcome ∈ raised) :
    s.InFlight k ∧ ¬ s'.InFlight k := by
  have gone {c : PlanChange} (hc : s.changes.get? k = some c) (hopen : c.stage ≠ .ended)
      (hchanges : s'.changes = s.changes.insert k { c with stage := .ended }) :
      s.InFlight k ∧ ¬ s'.InFlight k :=
    ⟨⟨c, hc, hopen⟩, fun hflight => (inFlight_of_insert hc hopen hchanges hflight).2 rfl rfl⟩
  cases proceeds with
  | works _ _ _ hrun => exact absurd (hrun _ hended) Bool.false_ne_true
  | breaksOff _ _ _ _ hc happlying hcontrol =>
      obtain ⟨rfl, -⟩ : k = _ ∧ outcome = _ := by simpa using hended
      exact gone hc (by simp [happlying]) (congrArg Control.changes hcontrol)
  | panics _ _ _ _ hc happlying hcontrol =>
      obtain ⟨rfl, -⟩ : k = _ ∧ outcome = _ := by simpa using hended
      exact gone hc (by simp [happlying]) (congrArg Control.changes hcontrol)
  | ends hc hstage _ hcontrol =>
      obtain ⟨rfl, -⟩ : k = _ ∧ outcome = _ := by simpa using hended
      exact gone hc (by simp [hstage]) (congrArg Control.changes hcontrol)
  | _ => simp at hended

/-! ## Orphans and all others -/

/-- The end of an orphan while this change was in flight. -/
def Interrupts (history : History) (change : Nat) : Prop :=
  ∃ y ∈ history, ∃ orphan ∈ orphans history, ∃ outcome,
    .changeEnded orphan outcome ∈ y.events ∧ y.before.InFlight change

structure Tracked (history : History) (s : Scheduler) : Prop where
  tracked : ∀ k, s.InFlight k → k ∉ orphans history → s.Tracks k
  lost : ∀ k ∈ orphans history, k < s.nextId ∧ ¬ s.Tracks k
  known : ∀ k, s.Tracks k → k < s.nextId
  cancelled : ∀ k c, s.changes.get? k = some c →
    (k ∈ orphans history ∨ ∃ id request, s.Awaits id request k ∧ request ≠ .wait) →
    c.cancelled = true
  counted : ∀ k, s.InFlight k → k ∉ orphans history → s.changing = true ∨ Interrupts history k

theorem Interrupts.snoc (h : Interrupts history k) : Interrupts (history ++ [y]) k := by
  obtain ⟨z, hz, orphan, horphan, outcome, hended, hflight⟩ := h
  exact ⟨z, List.mem_append_left _ hz, orphan, mem_orphans_snoc.2 (.inl horphan), outcome, hended,
    hflight⟩

theorem Tracked.single (h : Tracked history s) (queued : s.Queued) {k' : Nat} (hk : s.InFlight k)
    (hk' : s.InFlight k') (hown : k ∉ orphans history) (hown' : k' ∉ orphans history) : k = k' :=
  queued.tracks_unique (h.tracked k hk hown) (h.tracked k' hk' hown')

theorem Tracked.orphan_of_turn (h : Tracked history s) (queued : s.Queued) {request : ChangeRequest}
    (turn : s.Turn id request action) (hlatest : action = .act (.grant id) → s.latest = none)
    (hflight : s.InFlight k) : k ∈ orphans history := by
  by_contra hown
  exact queued.not_tracks_of_turn turn hlatest hflight (h.tracked k hflight hown)

theorem inFlight_of_accept {state : InstanceState} {levels : List SortedLevel} {plan : Plan}
    (hcontrol : s'.control = (s.accept id state plan levels).1.control) (hflight : s'.InFlight k) :
    k = s.nextId ∨ s.InFlight k := by
  have hchanges : s'.changes = s.changes.insert s.nextId { plan, levels, state } :=
    congrArg Control.changes hcontrol
  obtain ⟨c, hc, hopen⟩ := hflight
  rw [hchanges, Table.get?_insert] at hc
  split at hc
  · next hk => exact .inl hk
  · exact .inr ⟨c, hc, hopen⟩

theorem cancelled_of_move (linked : s.Linked) {events : List SchedulerEvent}
    (taken : s.move action = some (s', events)) {c later : PlanChange}
    (hc : s.changes.get? k = some c) (hlater : s'.changes.get? k = some later)
    (hcancelled : c.cancelled = true) : later.cancelled = true := by
  rcases serves_or_proceeds linked taken with serves | proceeds
  · obtain ⟨d, hd, stands, -⟩ := stands_of_serves linked serves hc
    obtain rfl := Option.some.inj (hlater.symm.trans hd)
    exact stands.cancelled hcancelled
  · obtain ⟨d, hd, stands, -⟩ := stands_of_proceeds proceeds hc
    obtain rfl := Option.some.inj (hlater.symm.trans hd)
    exact stands.cancelled hcancelled

theorem Tracked.cancelled_after (h : Tracked history s) (linked : s.Linked)
    {events : List SchedulerEvent} (taken : s.move action = some (s', events)) {later : PlanChange}
    (hlater : s'.changes.get? k = some later)
    (hk : k ∈ orphans history ∨ ∃ id request, s.Awaits id request k ∧ request ≠ .wait) :
    later.cancelled = true := by
  rcases (moved taken).changes k later hlater with ⟨c, hc, -⟩ | ⟨rfl, -⟩
  · exact cancelled_of_move linked taken hc hlater (h.cancelled k c hc hk)
  · -- the change that is accepted just now is neither
    rcases hk with hold | ⟨caller, request, awaits, -⟩
    · exact absurd (h.lost _ hold).1 (Nat.lt_irrefl _)
    · exact absurd (h.known _ (.inr ⟨caller, request, awaits⟩)) (Nat.lt_irrefl _)

theorem Tracked.serves (h : Tracked history y.before) (linked : y.before.Linked)
    (queued : y.before.Queued) (taken : y.before.move y.action = some (y.after, y.events))
    (serves : Serves y.before y.after y.action (own y.events)) :
    Tracked (history ++ [y]) y.after := by
  have hnext := (moved taken).nextId
  have horphan : ∀ k, orphaned? y = some k → y.before.Tracks k ∧ ¬ y.after.Tracks k :=
    fun k => not_tracks_of_orphaned queued serves
  have hcases := serves.accepted_cases
  refine ⟨fun k hflight hown => ?_, fun k hk => ?_, fun k tracks => ?_, fun k later hlater hk => ?_,
    fun k hflight hown => ?_⟩
  · rw [mem_orphans_snoc, not_or] at hown
    rcases hcases with ⟨-, hbefore, -⟩ | ⟨id, state, name, levels, plan, turn, hlatest, hcontrol, -⟩
    · have hold := hbefore k hflight
      exact (serves.tracks_after queued hold (h.tracked k hold hown.1)).resolve_right hown.2
    · rcases inFlight_of_accept hcontrol hflight with rfl | hold
      · exact .inl (congrArg Control.latest hcontrol)
      · exact absurd (h.orphan_of_turn queued turn hlatest hold) hown.1
  · rcases mem_orphans_snoc.1 hk with hold | hnew
    · obtain ⟨hlt, hnot⟩ := h.lost k hold
      refine ⟨Nat.lt_of_lt_of_le hlt hnext, fun tracks => ?_⟩
      rcases serves.tracks_before queued tracks with before | ⟨rfl, -⟩
      · exact hnot before
      · exact Nat.lt_irrefl _ hlt
    · obtain ⟨before, hnot⟩ := horphan k hnew
      exact ⟨Nat.lt_of_lt_of_le (h.known k before) hnext, hnot⟩
  · rcases serves.tracks_before queued tracks with before | ⟨rfl, hnew⟩
    · exact Nat.lt_of_lt_of_le (h.known k before) hnext
    · omega
  · rcases hk with hk | ⟨caller, request, awaits, hrequest⟩
    · refine h.cancelled_after linked taken hlater ?_
      rcases mem_orphans_snoc.1 hk with hold | hnew
      · exact .inl hold
      · obtain ⟨caller, state, name, -, awaits⟩ := orphaned?_eq_some hnew
        exact .inr ⟨caller, _, awaits, by simp⟩
    · rcases serves.awaits_before queued awaits with before | ⟨-, hchanges⟩
      · exact h.cancelled_after linked taken hlater (.inr ⟨caller, request, before, hrequest⟩)
      · rw [hchanges hrequest, Table.get?_modify, if_pos rfl] at hlater
        obtain ⟨c, -, rfl⟩ := Option.map_eq_some_iff.1 hlater
        rfl
  · rw [mem_orphans_snoc, not_or] at hown
    rcases hcases with ⟨-, hbefore, hchanging⟩ | ⟨id, state, name, levels, plan, -, -, hcontrol, -⟩
    · rw [hchanging]
      exact (h.counted k (hbefore k hflight) hown.1).imp_right Interrupts.snoc
    · exact .inl (congrArg Control.changing hcontrol)

theorem Tracked.proceeds (h : Tracked history y.before) (linked : y.before.Linked)
    (queued : y.before.Queued) (taken : y.before.move y.action = some (y.after, y.events))
    (proceeds : Proceeds y.before y.after y.action (own y.events)) :
    Tracked (history ++ [y]) y.after := by
  have hsame : orphans (history ++ [y]) = orphans history := by
    rw [orphans_snoc, proceeds.not_orphaned, Option.toList_none, List.append_nil]
  obtain ⟨hcallers, -, -, hnextId⟩ := proceeds.frame
  refine ⟨fun k hflight hown => ?_, fun k hk => ?_, fun k tracks => ?_, fun k later hlater hk => ?_,
    fun k hflight hown => ?_⟩
  · rw [hsame] at hown
    exact proceeds.tracks_iff.2 (h.tracked k (proceeds.inFlight_before hflight) hown)
  · rw [hsame] at hk
    rw [hnextId, proceeds.tracks_iff]
    exact h.lost k hk
  · rw [hnextId]
    exact h.known k (proceeds.tracks_iff.1 tracks)
  · rw [hsame] at hk
    simp only [Awaits, hcallers] at hk
    exact h.cancelled_after linked taken hlater hk
  · rw [hsame] at hown
    have hbefore := proceeds.inFlight_before hflight
    rcases h.counted k hbefore hown with hchanging | hold
    · by_cases hends : ∀ k' outcome, .changeEnded k' outcome ∈ own y.events → outcome = .panicked
      · exact .inl (proceeds.changing_iff.2 ⟨hchanging, hends⟩)
      · -- another change ends, and next to one that is none there are only orphans in flight
        push Not at hends
        obtain ⟨k', outcome, hended, -⟩ := hends
        obtain ⟨hflight', hover⟩ := proceeds.inFlight_of_changeEnded hended
        have horphan : k' ∈ orphans history := by
          by_contra hown'
          exact hover (h.single queued hbefore hflight' hown hown' ▸ hflight)
        exact .inr ⟨y, by simp, k', hsame ▸ horphan, outcome, (mem_own rfl).1 hended, hbefore⟩
    · exact .inr hold.snoc

theorem queued_of_run {settings : SchedulerSettings} {engine : EngineSettings} {board : Board}
    {store : PlanStore} {sinks : List String} {last : Scheduler}
    (run : Run move (create settings (.create engine board) store sinks) history last) :
    last.Queued := by
  induction run with
  | nil => exact (orderly_create ..).toQueued
  | snoc run taken ih => exact ih.move (linked_of_run (linked_create ..) run) taken

theorem tracked_of_run {settings : SchedulerSettings} {engine : EngineSettings} {board : Board}
    {store : PlanStore} {sinks : List String} {last : Scheduler}
    (run : Run move (create settings (.create engine board) store sinks) history last) :
    Tracked history last := by
  induction run with
  | nil =>
      refine ⟨?_, by simp [orphans], ?_, ?_, ?_⟩ <;>
        simp [create, say, setStatus, InFlight, Tracks, Awaits]
  | @snoc history s s' action events run taken ih =>
      have linked := linked_of_run (linked_create ..) run
      have queued := queued_of_run run
      rcases serves_or_proceeds linked taken with serves | proceeds
      · exact ih.serves (y := ⟨s, action, s', events⟩) linked queued taken serves
      · exact ih.proceeds (y := ⟨s, action, s', events⟩) linked queued taken proceeds

/-- Only who has the lock gives it back at the end of a run. -/
theorem turn_of_closes (linked : y.before.Linked)
    (taken : y.before.move y.action = some (y.after, y.events)) (h : Closes y) :
    ∃ id, y.before.Turn id .shutdown y.action ∧
      (y.action = .act (.grant id) → y.before.latest = none) := by
  obtain ⟨before, action, after, events⟩ := y
  obtain ⟨caller, stage, hcaller, hgone⟩ := h
  simp only at linked taken hcaller hgone ⊢
  have gone {id : Nat} {asking : Caller} (hasking : before.callers.get? id = some asking)
      (hcallers : after.callers = before.callers.erase id) : asking.request = .shutdown := by
    rw [hcallers, Table.get?_erase] at hgone
    split at hgone
    · next hid =>
        obtain rfl := Option.some.inj (hasking.symm.trans (hid ▸ hcaller))
        rfl
    · simp [hcaller] at hgone
  have kept {id : Nat} {asking : Caller} (hcallers : after.callers = before.callers.insert id asking) :
      False := by
    rw [hcallers, Table.get?_insert] at hgone
    split at hgone
    · contradiction
    · simp [hcaller] at hgone
  rcases serves_or_proceeds linked taken with serves | proceeds
  · generalize own events = raised at serves
    cases serves with
    | asks _ hcontrol => exact (kept (congrArg Control.callers hcontrol)).elim
    | refuses turn _ hcontrol =>
        obtain ⟨_, hasking⟩ := turn.caller
        exact nomatch gone hasking (congrArg Control.callers hcontrol)
    | accepts turn _ _ hcontrol =>
        obtain ⟨_, hasking⟩ := turn.caller
        exact nomatch gone hasking (congrArg Control.callers hcontrol)
    | awaits _ _ _ _ _ hcontrol => exact (kept (congrArg Control.callers hcontrol)).elim
    | joins _ _ _ hcontrol => exact (kept (congrArg Control.callers hcontrol)).elim
    | answers turn _ hcontrol =>
        obtain ⟨_, hasking⟩ := turn.caller
        exact nomatch gone hasking (congrArg Control.callers hcontrol)
    | closes turn hlatest => exact ⟨_, turn, hlatest⟩
    | drops hasking hrequest hcontrol =>
        exact absurd (gone hasking (congrArg Control.callers hcontrol)) hrequest
  · obtain ⟨hcallers, -⟩ := proceeds.frame
    simp [hcallers, hcaller] at hgone

/-- It is a caller's turn, and the caller has no earlier change to end any more. -/
theorem turn_of_move (linked : y.before.Linked)
    (taken : y.before.move y.action = some (y.after, y.events))
    (h : (acceptance? y).isSome = true ∨ Closes y) :
    ∃ id request, y.before.Turn id request y.action ∧
      (y.action = .act (.grant id) → y.before.latest = none) := by
  rcases h with haccepted | hcloses
  · rcases serves_or_proceeds linked taken with serves | proceeds
    · rcases serves.accepted_cases with ⟨hnone, -⟩ | ⟨id, state, name, -, -, turn, hlatest, -⟩
      · simp [hnone] at haccepted
      · exact ⟨id, _, turn, hlatest⟩
    · simp [proceeds.not_accepted] at haccepted
  · obtain ⟨id, turn, hlatest⟩ := turn_of_closes linked taken hcloses
    exact ⟨id, _, turn, hlatest⟩

theorem inFlight_of_move (linked : y.before.Linked)
    (taken : y.before.move y.action = some (y.after, y.events)) (hflight : y.after.InFlight k) :
    y.before.InFlight k ∨ ∃ a, acceptance? y = some a ∧ a.change = k := by
  rcases serves_or_proceeds linked taken with serves | proceeds
  · rcases serves.accepted_cases with ⟨-, hbefore, -⟩ | ⟨_, _, _, _, _, -, -, hcontrol, haccepted⟩
    · exact .inl (hbefore k hflight)
    · rcases inFlight_of_accept hcontrol hflight with rfl | hold
      · exact .inr ⟨_, haccepted, rfl⟩
      · exact .inl hold
  · exact .inl (proceeds.inFlight_before hflight)

/-- A run that has not ended since has given the lock back, with nothing in flight but orphans; what
is in flight besides has been accepted after that. -/
def ClosedOver (history : History) (s : Scheduler) : Prop :=
  ∃ earlier y since, history = earlier ++ y :: since ∧ Closes y ∧
    (∀ k, y.before.InFlight k → k ∈ orphans earlier) ∧ (∀ z ∈ since, .stopped ∉ z.events) ∧
    ∀ k, s.InFlight k → k ∈ orphans earlier ∨ k ∈ (accepted since).map (·.change)

theorem ClosedOver.snoc (h : ClosedOver history y.before) (linked : y.before.Linked)
    (taken : y.before.move y.action = some (y.after, y.events)) (hgoing : .stopped ∉ y.events) :
    ClosedOver (history ++ [y]) y.after := by
  obtain ⟨earlier, z, since, rfl, hcloses, horphans, hsince, hflights⟩ := h
  refine ⟨earlier, z, since ++ [y], by simp, hcloses, horphans, ?_, fun k hflight => ?_⟩
  · rw [List.forall_mem_append]
    exact ⟨hsince, by simpa using hgoing⟩
  · rw [accepted_snoc, List.map_append, List.mem_append]
    rcases inFlight_of_move linked taken hflight with hbefore | ⟨a, haccepted, rfl⟩
    · exact (hflights k hbefore).imp_right .inl
    · exact .inr (.inr (by simp [haccepted]))

theorem closedOver_of_run {settings : SchedulerSettings} {engine : EngineSettings} {board : Board}
    {store : PlanStore} {sinks : List String} {last : Scheduler}
    (run : Run move (create settings (.create engine board) store sinks) history last)
    (hclosing : last.Closing) : ClosedOver history last := by
  induction run with
  | nil =>
      contradiction
  | @snoc history s s' action events run taken ih =>
      have linked := linked_of_run (linked_create ..) run
      cases phases_of_move taken with
      | stays hsame hgoing =>
          exact (ih (hsame.symm.trans hclosing)).snoc (y := ⟨s, action, s', events⟩) linked taken hgoing
      | begins _ hopen => exact absurd (hopen.symm.trans hclosing) (by simp)
      | @closes _ id turn hcallers hchanges =>
          obtain ⟨stage, hcaller⟩ := turn.caller
          have hcloses : Closes ⟨s, action, s', events⟩ :=
            ⟨id, stage, hcaller, by rw [hcallers, Table.get?_erase, if_pos rfl]⟩
          obtain ⟨_, _, turn, hlatest⟩ := turn_of_move linked taken (.inr hcloses)
          have orphan (k : Nat) (hflight : s.InFlight k) : k ∈ orphans history :=
            (tracked_of_run run).orphan_of_turn (queued_of_run run) turn hlatest hflight
          exact ⟨history, _, [], rfl, hcloses, orphan, by simp, fun k hflight =>
            .inl (orphan k (inFlight_of_eq hchanges hflight))⟩
      | ends _ _ hnone => exact absurd (hnone.symm.trans hclosing) (by simp)

/-- A change in flight is tracked exactly if it is no orphan.  Of those that are none there is only
one, nothing else is accepted and no run gives the lock back before it ends, and no tick counts until
then but for orphans that end in between.  So what is in flight besides orphans when a run says that
it is over has been accepted since it gave the lock back.  Orphans are left by callers only who give
up while they wait for the end of an earlier change, and even they leave everything else as it is. -/
theorem tracked_unless_orphaned {settings : SchedulerSettings} {engine : EngineSettings}
    {board : Board} {store : PlanStore} {sinks : List String} {last : Scheduler}
    (run : Run move (create settings (.create engine board) store sinks) history last) :
    (∀ k, last.InFlight k → (last.Tracks k ↔ k ∉ orphans history)) ∧
      (∀ k k', last.InFlight k → last.InFlight k' → k ∉ orphans history → k' ∉ orphans history →
        k = k') ∧
      (∀ id p, last.engine.preparations.get? id = some p →
        ∃ k c, last.changes.get? k = some c ∧ c.stage = .applying id ∧
          p.cancelled = c.cancelled) ∧
      (∀ k c, last.changes.get? k = some c →
        (k ∈ orphans history ∨ ∃ id request, last.Awaits id request k ∧ request ≠ .wait) →
        c.cancelled = true) ∧
      (∀ k, last.InFlight k → k ∉ orphans history → last.changing = true ∨ Interrupts history k) ∧
      ∀ earlier y later, history = earlier ++ y :: later →
        ((acceptance? y).isSome ∨ Closes y → ∀ k, y.before.InFlight k → k ∈ orphans earlier) ∧
        (.stopped ∈ y.events → ClosedOver earlier y.before) ∧
        (∀ k, y.action = .act (.beginChange k) → ∀ k', y.before.InFlight k' →
          k' = k ∨ k' ∈ orphans earlier ∨ k ∈ orphans earlier) ∧
        ∀ caller, y.action = .act (.dropCaller caller) →
          y.after.changes = y.before.changes ∧ y.after.latest = y.before.latest ∧
            y.after.changing = y.before.changing ∧
            y.after.engine.preparations = y.before.engine.preparations := by
  have followed := tracked_of_run run
  have linked := linked_of_run (linked_create ..) run
  refine ⟨fun k hflight => ⟨fun tracks horphan => (followed.lost k horphan).2 tracks,
    followed.tracked k hflight⟩, fun k k' => followed.single (queued_of_run run), fun id p hp => ?_,
    followed.cancelled, followed.counted, ?_⟩
  · obtain ⟨k, c, hc, happlying⟩ := linked.owned id p hp
    obtain ⟨q, hq, -, hcancelled⟩ := linked.applying k c id hc happlying
    obtain rfl := Option.some.inj (hp.symm.trans hq)
    exact ⟨k, c, hc, happlying, hcancelled⟩
  · rintro earlier y later rfl
    obtain ⟨before, taken, -⟩ := run.taken
    have hbefore := tracked_of_run before
    have queued := queued_of_run before
    have hlinked := linked_of_run (linked_create ..) before
    refine ⟨fun hover k hflight => ?_, fun hstopped => ?_, fun k haction k' hflight' => ?_,
      fun caller haction => ?_⟩
    · obtain ⟨id, request, turn, hlatest⟩ := turn_of_move hlinked taken hover
      exact hbefore.orphan_of_turn queued turn hlatest hflight
    · have phases := phases_of_move taken
      generalize y.action = action at phases
      cases phases with
      | ends _ hclosing => exact closedOver_of_run before hclosing
      | _ => contradiction
    · rw [haction] at taken
      obtain ⟨c, hc, hspawned, -⟩ := beginChange_eq_some taken
      have hflight : y.before.InFlight k := ⟨c, hc, by simp [hspawned]⟩
      by_contra hothers
      simp only [not_or] at hothers
      exact hothers.1 (hbefore.single queued hflight' hflight hothers.2.1 hothers.2.2)
    · rw [haction] at taken
      obtain ⟨asking, -, -, hnext⟩ := dropCaller_eq_some taken
      obtain ⟨hafter, -⟩ := Prod.mk.inj hnext
      rw [hafter]
      exact ⟨rfl, rfl, rfl, rfl⟩

/-- A second caller gives up while the first change comes to its end, and a third one goes on. -/
def orphaning : List Move :=
  [.act (.call (.change .active "p")), .act (.grant 0), .act (.beginChange 1),
    .act (.call (.change .standby "p")), .act (.grant 2), .act (.dropCaller 2),
    .act (.call (.change .offline "p")), .act (.grant 3), .act (.beginChange 4)]

def orphaningRun : History × Scheduler :=
  Run.follow move (create {} (.create {} ∅) oneDomain []) orphaning

theorem tracked_unless_orphaned_secondPlan :
    Run move (create {} (.create {} ∅) oneDomain []) orphaningRun.1 orphaningRun.2 ∧
      orphans orphaningRun.1 = [1] ∧
      (orphaningRun.2.InFlight 1 ∧ ¬ orphaningRun.2.Tracks 1) ∧
      orphaningRun.2.InFlight 4 ∧ orphaningRun.2.Tracks 4 := by
  have hrun : Run move (create {} (.create {} ∅) oneDomain []) orphaningRun.1 orphaningRun.2 :=
    Run.of_follow ..
  have horphans : orphans orphaningRun.1 = [1] := by decide +kernel
  have flight : ∀ k id, (orphaningRun.2.changes.get? k).map (·.stage) = some (.applying id) →
      orphaningRun.2.InFlight k := by
    intro k id hstage
    obtain ⟨c, hc, happlying⟩ := Option.map_eq_some_iff.1 hstage
    exact inFlight_of_applying hc happlying
  have hfirst := flight 1 0 (by decide +kernel)
  have hthird := flight 4 1 (by decide +kernel)
  have htracked := (tracked_unless_orphaned hrun).1
  rw [horphans] at htracked
  refine ⟨hrun, horphans, ⟨hfirst, fun tracks => ?_⟩, hthird, (htracked 4 hthird).2 (by simp)⟩
  exact (htracked 1 hfirst).1 tracks (by simp)

def overlappingRun : History × Scheduler :=
  Run.follow move (create {} (.create {} ∅) oneDomain [])
    (orphaning ++ [.act (.engine (.noticeCancel 0)), .act (.reportChange 1), .act (.endChange 1)])

private theorem length_overlappingRun : 9 < overlappingRun.1.length := by
  decide +kernel

/-- With a call dropped in its wait the engine prepares two plans at once, and the end of the first
makes ticks count while the second is still being prepared. -/
theorem two_plans_after_drop :
    Run move (create {} (.create {} ∅) oneDomain []) overlappingRun.1 overlappingRun.2 ∧
      ∃ earlier y later, overlappingRun.1 = earlier ++ y :: later ∧
        orphans earlier = [1] ∧
        y.before.engine.preparations.keys = [0, 1] ∧ y.before.changing = true ∧
        (overlappingRun.2.changes.get? 4).map (·.stage) = some (.applying 1) ∧
        overlappingRun.2.engine.preparations.keys = [1] ∧ overlappingRun.2.changing = false := by
  refine ⟨Run.of_follow .., overlappingRun.1.take 9, overlappingRun.1.get ⟨9, length_overlappingRun⟩,
    overlappingRun.1.drop 10, ?_, ?_⟩
  · rw [List.get_eq_getElem, ← List.drop_eq_getElem_cons, List.take_append_drop]
  · exact ⟨by decide +kernel, by decide +kernel⟩

end Cadence.Scheduler
