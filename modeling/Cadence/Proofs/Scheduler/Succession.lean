import Cadence.Proofs.Scheduler.Lock

/-!
# Changes of plan in succession

As long as nobody gives up while waiting for an earlier change, changes take turns
in the order of the lock, and what is scheduled and live in the end is the plan of
the change accepted last.
-/

namespace Cadence.Scheduler

variable {s s' : Scheduler} {action : Move} {raised : List SchedulerEvent} {history : History}
  {y : Step Scheduler Move SchedulerEvent} {id change : Nat}

/-- Once the change accepted last has gone live, it is what is scheduled, and its plan is live. -/
def Current (history : History) (s : Scheduler) : Prop :=
  ∀ a, (accepted history).getLast? = some a → EndedWith history a.change .ready →
    s.active = a.scheduled ∧ s.engine.live.plan = some a.plan

/-- Whoever has asked for the end of a run gives the lock back: the run has only to say that it is
over. -/
def Closes (y : Step Scheduler Move SchedulerEvent) : Prop :=
  ∃ caller stage, y.before.callers.get? caller = some { request := .shutdown, stage } ∧
    y.after.callers.get? caller = none

def Closed (history : History) : Prop := ∃ y ∈ history, Closes y

/-- Somebody who has cancelled the change waits for its end. -/
def Overtaken (s : Scheduler) (change : Nat) : Prop :=
  ∃ id request, s.Awaits id request change ∧ request ≠ .wait

/-- The change accepted last is cancelled only by somebody who goes on to take its place. -/
def Succeeded (history : History) (s : Scheduler) : Prop :=
  ∀ a c, (accepted history).getLast? = some a → s.changes.get? a.change = some c →
    c.cancelled = true → s.Overtaken a.change ∨ Closed history

theorem Serves.active_eq (serves : Serves s s' action raised) :
    s'.active = s.active ∧ s'.engine.live = s.engine.live := by
  cases serves with
  | asks _ hcontrol hapart => exact ⟨congrArg Control.active hcontrol, hapart.live⟩
  | refuses _ _ hcontrol hapart => exact ⟨congrArg Control.active hcontrol, hapart.live⟩
  | accepts _ _ _ hcontrol hapart => exact ⟨congrArg Control.active hcontrol, hapart.live⟩
  | awaits _ _ _ _ _ hcontrol hengine =>
      exact ⟨congrArg Control.active hcontrol, by rw [hengine]⟩
  | joins _ _ _ hcontrol hapart => exact ⟨congrArg Control.active hcontrol, hapart.live⟩
  | answers _ _ hcontrol hapart => exact ⟨congrArg Control.active hcontrol, hapart.live⟩
  | closes _ _ hcontrol hapart => exact ⟨congrArg Control.active hcontrol, hapart.live⟩
  | drops _ _ hcontrol hapart => exact ⟨congrArg Control.active hcontrol, hapart.live⟩

theorem Current.serves (h : Current history y.before) (listed : Listed history y.before)
    (orderly : y.before.Orderly) (serves : Serves y.before y.after y.action (own y.events)) :
    Current (history ++ [y]) y.after := by
  obtain ⟨hactive, hlive⟩ := serves.active_eq
  intro a hlast hwith
  have hwith := (endedWith_snoc.1 hwith).resolve_right serves.not_endedWith
  rw [hactive, hlive]
  rcases serves.accepted_cases with ⟨hnone, -⟩ | ⟨id, state, name, levels, plan, -, -, -, hsome⟩
  · rw [accepted_snoc, hnone, Option.toList_none, List.append_nil] at hlast
    exact h a hlast hwith
  · -- a change that is new has not ended
    rw [accepted_snoc, hsome, Option.toList_some, List.getLast?_concat] at hlast
    obtain rfl := Option.some.inj hlast
    obtain ⟨c, hc, -⟩ := listed.concluded _ _ hwith
    exact absurd (orderly.linked.changes _ c hc) (Nat.lt_irrefl _)

/-- When the change accepted last is over, none is in flight. -/
theorem Listed.idle (h : Listed history s) {a : Acceptance} {outcome : PrepareOutcome}
    (hlast : (accepted history).getLast? = some a) (hwith : EndedWith history a.change outcome)
    (k : Nat) : ¬ s.InFlight k := by
  obtain ⟨c, hc, hended, -⟩ := h.concluded a.change outcome hwith
  obtain ⟨flight, preparing, phase, hids, -⟩ := h.phase
  have hlastId : (ended history ++ flight).getLast? = some a.change := by
    rw [← hids, List.getLast?_map, hlast]
    rfl
  have hover : ¬ s.InFlight a.change := by
    rintro ⟨d, hd, hopen⟩
    obtain rfl := Option.some.inj (hc.symm.trans hd)
    exact hopen hended
  cases phase with
  | idle hnone => exact hnone k
  | @spawned k' d hd hstage =>
      rw [List.getLast?_concat] at hlastId
      obtain rfl := Option.some.inj hlastId
      exact absurd ⟨d, hd, by simp [hstage]⟩ hover
  | begun hd _ hopen =>
      rw [List.getLast?_concat] at hlastId
      obtain rfl := Option.some.inj hlastId
      exact absurd ⟨_, hd, hopen⟩ hover

theorem Current.proceeds (h : Current history y.before) (listed : Listed history y.before)
    (orderly : y.before.Orderly) (proceeds : Proceeds y.before y.after y.action (own y.events)) :
    Current (history ++ [y]) y.after := by
  intro a hlast hwith
  rw [accepted_snoc, proceeds.not_accepted, Option.toList_none, List.append_nil] at hlast
  obtain ⟨c, hc, hplan, hscheduled⟩ := listed.known a (List.mem_of_getLast? hlast)
  rw [endedWith_snoc] at hwith
  obtain ⟨before, action, after, events⟩ := y
  simp only at h listed orderly proceeds hwith hc ⊢
  generalize own events = raised at proceeds hwith
  have nothing : EndedWith history a.change .ready →
      ∀ {id p}, before.engine.preparations.get? id ≠ some p := by
    intro hwith id p hp
    obtain ⟨k, d, hd, happlying⟩ := orderly.linked.owned id p hp
    exact listed.idle hlast hwith k (inFlight_of_applying hd happlying)
  have settled : .changeEnded a.change .ready ∉ raised → after.active = before.active →
      after.engine.live = before.engine.live →
      after.active = a.scheduled ∧ after.engine.live.plan = some a.plan := by
    intro hnot hactive hlive
    rw [hactive, hlive]
    exact h a hlast (hwith.resolve_right hnot)
  have busy : .changeEnded a.change .ready ∉ raised → ∀ {k d}, before.changes.get? k = some d →
      d.stage ≠ .ended → after.active = a.scheduled ∧ after.engine.live.plan = some a.plan :=
    fun hnot _ _ hd hopen =>
      absurd ⟨_, hd, hopen⟩ (listed.idle hlast (hwith.resolve_right hnot) _)
  cases proceeds with
  | works _ hcontrol hapart hrun =>
      refine settled (fun hmem => ?_) (congrArg Control.active hcontrol) hapart.live
      exact Bool.false_ne_true (hrun _ hmem)
  | pauses hcontrol hapart =>
      exact settled (by simp) (congrArg Control.active hcontrol) hapart.live
  | begins hd hspawned => exact busy (by simp) hd (by simp [hspawned])
  | goesOn _ _ hp => exact absurd hp (nothing (hwith.resolve_right (by simp)))
  | swaps _ _ hp => exact absurd hp (nothing (hwith.resolve_right (by simp)))
  | goesLive _ hp => exact absurd hp (nothing (hwith.resolve_right (by simp)))
  | breaksOff _ hp => exact absurd hp (nothing (hwith.resolve_right (by simp)))
  | panics _ _ _ _ hd happlying => exact busy (by simp) hd (by simp [happlying])
  | concludes _ _ _ _ _ hd happlying => exact busy (by simp) hd (by simp [happlying])
  | reports hd hstage => exact busy (by simp) hd (by simp [hstage])
  | @ends change outcome d hd hstage _ hcontrol hapart =>
      rcases hwith with hwith | hnew
      · exact absurd ⟨d, hd, by simp [hstage]⟩ (listed.idle hlast hwith change)
      · -- it is the change accepted last that ends, after its swap
        obtain ⟨hsame, rfl⟩ : a.change = change ∧ .ready = outcome := by simpa using hnew
        subst hsame
        obtain rfl := Option.some.inj (hc.symm.trans hd)
        obtain ⟨hactive, hlive⟩ := orderly.finished _ _ _ hd hstage
        have hsame : after.active = before.active := congrArg Control.active hcontrol
        rw [hsame, hactive, hapart.live, hlive, hplan]
        exact ⟨hscheduled, rfl⟩

theorem closed_snoc : Closed (history ++ [y]) ↔ Closed history ∨ Closes y := by
  simp only [Closed, List.mem_append, List.mem_singleton, or_and_right, exists_or, exists_eq_left]

theorem Succeeded.proceeds (h : Succeeded history y.before) (listed : Listed history y.before)
    (proceeds : Proceeds y.before y.after y.action (own y.events)) :
    Succeeded (history ++ [y]) y.after := by
  intro a c hlast hc hcancelled
  rw [accepted_snoc, proceeds.not_accepted, Option.toList_none, List.append_nil] at hlast
  obtain ⟨d, hd, -⟩ := listed.known a (List.mem_of_getLast? hlast)
  obtain ⟨later, hlater, -, hsame, -⟩ := stands_of_proceeds proceeds hd
  obtain rfl := Option.some.inj (hc.symm.trans hlater)
  obtain ⟨hcallers, -⟩ := proceeds.frame
  rw [closed_snoc]
  refine (h a d hlast hd (hsame.symm.trans hcancelled)).imp ?_ .inl
  simp only [Overtaken, Awaits, hcallers]
  exact id

/-- At the turn of a caller, nobody else can have overtaken a change. -/
theorem Overtaken.of_turn (h : s.Overtaken change) (queued : s.Queued) {request : ChangeRequest}
    (turn : s.Turn id request action) : s.Awaits id request change ∧ request ≠ .wait := by
  obtain ⟨other, request', awaits, hne⟩ := h
  obtain rfl := queued.alone turn awaits
  obtain ⟨stage, hcaller⟩ := turn.caller
  have hsame : request = request' ∧ stage = .awaiting change := by
    simpa using hcaller.symm.trans awaits
  obtain ⟨rfl, rfl⟩ := hsame
  exact ⟨awaits, hne⟩

theorem Overtaken.drops (h : s.Overtaken change) {asking : Caller}
    (stays : ∀ state name k, ¬ s.Awaits id (.change state name) k)
    (hcaller : s.callers.get? id = some asking) (hrequest : asking.request ≠ .shutdown)
    (hcallers : s'.callers = s.callers.erase id) : s'.Overtaken change := by
  obtain ⟨other, request, awaits, hne⟩ := h
  have hother : other ≠ id := by
    rintro rfl
    obtain rfl := Option.some.inj (hcaller.symm.trans awaits)
    cases request with
    | change state name => exact stays state name change awaits
    | wait => exact hne rfl
    | shutdown => exact hrequest rfl
  refine ⟨other, request, ?_, hne⟩
  rw [Awaits, hcallers, Table.get?_erase, if_neg hother]
  exact awaits

theorem Succeeded.serves (h : Succeeded history y.before) (orderly : y.before.Orderly)
    (stays : Stays y) (serves : Serves y.before y.after y.action (own y.events)) :
    Succeeded (history ++ [y]) y.after := by
  intro a c hlast hc hcancelled
  rw [closed_snoc]
  have earlier : acceptance? y = none → y.before.changes.get? a.change = some c →
      y.before.Overtaken a.change ∨ Closed history := by
    intro hnone hsame
    rw [accepted_snoc, hnone, Option.toList_none, List.append_nil] at hlast
    exact h a c hlast hsame hcancelled
  obtain ⟨before, action, after, events⟩ := y
  simp only at h orderly serves hc earlier ⊢
  generalize hown : own events = raised at serves
  have silent := acceptance_eq_none (y := ⟨before, action, after, events⟩)
  simp only [hown] at silent
  have queued : ∀ {id request}, before.lock.head? = some id →
      before.callers.get? id = some { request, stage := .queued } →
      ¬ before.Overtaken a.change := by
    intro id request hhead hcaller hovertaken
    obtain ⟨awaits, -⟩ := hovertaken.of_turn orderly.toQueued (.first hhead hcaller)
    simp [Awaits, hcaller] at awaits
  cases serves with
  | @asks _ request hkind hcontrol =>
      have hcallers : after.callers = before.callers.insert before.nextId { request } :=
        congrArg Control.callers hcontrol
      have hchanges : after.changes = before.changes := congrArg Control.changes hcontrol
      refine (earlier (silent (by simp)) (hchanges ▸ hc)).imp ?_ .inl
      rintro ⟨id, request', awaits, hne⟩
      have hid := orderly.callers id _ awaits
      refine ⟨id, request', ?_, hne⟩
      rw [Awaits, hcallers, Table.get?_insert, if_neg (Nat.ne_of_lt hid)]
      exact awaits
  | @refuses _ id state name e turn hfound hcontrol =>
      have hchanges : after.changes = before.changes := congrArg Control.changes hcontrol
      rcases earlier (silent (by simp)) (hchanges ▸ hc) with hovertaken | hclosed
      · -- whoever waits has found a plan under the name already
        obtain ⟨awaits, -⟩ := hovertaken.of_turn orderly.toQueued turn
        obtain ⟨found, hok⟩ := orderly.found id state name a.change awaits
        rw [hfound] at hok
        contradiction
      · exact .inr (.inl hclosed)
  | accepts turn _ hfound hcontrol =>
      rw [accepted_snoc, acceptance_of_change hown turn hfound, Option.toList_some,
        List.getLast?_concat] at hlast
      obtain rfl := Option.some.inj hlast
      have hchanges : after.changes = before.changes.insert before.nextId _ :=
        congrArg Control.changes hcontrol
      simp only at hc
      rw [hchanges, Table.get?_insert_self] at hc
      obtain rfl := Option.some.inj hc
      contradiction
  | @awaits id change request hhead hcaller hrequest _ _ hcontrol =>
      have hcallers : after.callers =
          before.callers.insert id { request, stage := .awaiting change } :=
        congrArg Control.callers hcontrol
      have hchanges : after.changes =
          before.changes.modify change (fun c => { c with cancelled := true }) :=
        congrArg Control.changes hcontrol
      by_cases hchange : a.change = change
      · refine .inl ⟨id, request, ?_, hrequest⟩
        rw [Awaits, hcallers, hchange, Table.get?_insert_self]
      · rw [hchanges, Table.get?_modify, if_neg hchange] at hc
        have hclosed := (earlier (silent (by simp)) hc).resolve_left (queued hhead hcaller)
        exact .inr (.inl hclosed)
  | joins hhead hcaller _ hcontrol =>
      have hchanges : after.changes = before.changes := congrArg Control.changes hcontrol
      have hclosed := (earlier (silent (by simp)) (hchanges ▸ hc)).resolve_left
        (queued hhead hcaller)
      exact .inr (.inl hclosed)
  | answers turn _ hcontrol =>
      have hchanges : after.changes = before.changes := congrArg Control.changes hcontrol
      rcases earlier (acceptance_of_wait hown turn) (hchanges ▸ hc) with hovertaken | hclosed
      · exact absurd rfl (hovertaken.of_turn orderly.toQueued turn).2
      · exact .inr (.inl hclosed)
  | closes turn _ hcontrol =>
      obtain ⟨stage, hcaller⟩ := turn.caller
      have hcallers : after.callers = before.callers.erase _ := congrArg Control.callers hcontrol
      exact .inr (.inr ⟨_, stage, hcaller, by rw [hcallers, Table.get?_erase, if_pos rfl]⟩)
  | drops hcaller hrequest hcontrol =>
      have hchanges : after.changes = before.changes := congrArg Control.changes hcontrol
      refine (earlier (silent (by simp)) (hchanges ▸ hc)).imp (fun hovertaken => ?_) .inl
      exact hovertaken.drops (fun state name k awaits => stays _ state name k awaits rfl) hcaller
        hrequest (congrArg Control.callers hcontrol)

/-! ## Runs -/

structure Accounted (history : History) (s : Scheduler) : Prop where
  orderly : s.Orderly
  listed : Listed history s
  lined : Lined history s
  current : Current history s
  succeeded : Succeeded history s

theorem accounted_create (settings : SchedulerSettings) (engine : EngineSettings) (board : Board)
    (store : PlanStore) (sinks : List String) :
    Accounted [] (create settings (.create engine board) store sinks) where
  orderly := orderly_create ..
  listed := by
    refine ⟨by simp [accepted], by simp [EndedWith], [], [], .idle ?_, rfl, rfl⟩
    simp [create, say, setStatus, InFlight]
  lined := by
    refine ⟨by simp [granted], by simp [granted], by simp [accepted], ?_⟩
    simp [create, say, setStatus, Awaits]
  current := by simp [Current, accepted]
  succeeded := by simp [Succeeded, accepted]

theorem Accounted.snoc (h : Accounted history y.before) (stays : Stays y)
    (taken : y.before.move y.action = some (y.after, y.events)) :
    Accounted (history ++ [y]) y.after := by
  obtain ⟨orderly, listed, lined, current, succeeded⟩ := h
  rcases serves_or_proceeds orderly.linked taken with serves | proceeds
  · exact ⟨orderly.move stays taken, listed.serves orderly serves, lined.serves orderly serves,
      current.serves listed orderly serves, succeeded.serves orderly stays serves⟩
  · exact ⟨orderly.move stays taken, listed.proceeds orderly proceeds, lined.proceeds proceeds,
      current.proceeds listed orderly proceeds, succeeded.proceeds listed proceeds⟩

theorem accounted_of_run {settings : SchedulerSettings} {engine : EngineSettings} {board : Board}
    {store : PlanStore} {sinks : List String} {last : Scheduler}
    (run : Run move (create settings (.create engine board) store sinks) history last)
    (stays : ∀ y ∈ history, Stays y) : Accounted history last := by
  induction run with
  | nil => exact accounted_create ..
  | snoc run taken ih =>
      have hbefore := ih fun y hy => stays y (List.mem_append_left _ hy)
      exact hbefore.snoc (stays _ (List.mem_append_right _ (List.mem_singleton_self _))) taken

/-- What changes of plan that take turns have come to. -/
structure TakesTurns (history : History) (last : Scheduler) : Prop where
  /-- The engine prepares one plan at a time. -/
  single : ∀ id id' p p', last.engine.preparations.get? id = some p →
    last.engine.preparations.get? id' = some p' → id = id'
  returned : ∀ y ∈ history, ∀ caller state name stage,
    y.before.callers.get? caller = some { request := .change state name, stage } →
    .returned caller (.ok ()) ∈ y.events →
    ∃ a ∈ accepted history, a.caller = caller ∧ a.state = state
  /-- A caller gets the lock once, and has its change accepted in the order of the lock. -/
  lock : (granted history).Nodup ∧ ((accepted history).map (·.caller)).Sublist (granted history)
  order : begun history <+: (accepted history).map (·.change)
  /-- When a change begins, all accepted before it have ended. -/
  begins : ∀ earlier y later change, history = earlier ++ y :: later →
    y.action = .act (.beginChange change) →
    (accepted earlier).map (·.change) = ended earlier ++ [change]
  changing : ∀ a ∈ accepted history, a.change ∉ ended history → last.changing = true
  /-- The change accepted last is the one in force, unless somebody else is about to follow or a run
  has come to its end. -/
  inForce : ∀ a, (accepted history).getLast? = some a →
    (EndedWith history a.change .ready →
      last.active = a.scheduled ∧ last.engine.live.plan = some a.plan) ∧
    (EndedWith history a.change .cancelled → last.Overtaken a.change ∨ Closed history)

/-- As long as nobody gives up while waiting for an earlier change, changes are prepared one at a time,
in the order of the lock, and the last one wins. -/
theorem takes_turns {settings : SchedulerSettings} {engine : EngineSettings} {board : Board}
    {store : PlanStore} {sinks : List String} {last : Scheduler}
    (run : Run move (create settings (.create engine board) store sinks) history last)
    (stays : ∀ y ∈ history, Stays y) : TakesTurns history last := by
  have accounted := accounted_of_run run stays
  obtain ⟨orderly, listed, lined, current, succeeded⟩ := accounted
  obtain ⟨flight, preparing, phase, hids, hpreparing⟩ := listed.phase
  refine ⟨?_, ?_, ⟨lined.nodup, lined.order⟩, ?_, ?_, ?_, ?_⟩
  · exact fun id id' p p' hp hp' => (orderly.one_preparation hp hp').symm
  · intro y hy caller state name stage hcaller hreturned
    obtain ⟨hlinked, taken⟩ := run.invariant_before
      (linked_create settings engine board store sinks) (fun taken h => h.move taken) hy
    obtain ⟨a, ha, hsame⟩ := acceptance_of_returned hlinked taken hcaller hreturned
    exact ⟨a, List.mem_filterMap.2 ⟨y, hy, ha⟩, hsame⟩
  · rw [hids, hpreparing, List.prefix_append_right_inj]
    cases phase with
    | idle => exact List.prefix_rfl
    | spawned => exact List.nil_prefix
    | begun => exact List.prefix_rfl
  · intro earlier y later change hhistory haction
    subst hhistory
    obtain ⟨before, taken, -⟩ := run.taken
    have accounted := accounted_of_run before fun x hx => stays x (List.mem_append_left _ hx)
    rw [haction] at taken
    obtain ⟨c, hc, hspawned, -⟩ := beginChange_eq_some taken
    obtain ⟨flight, preparing, phase, hids, -⟩ := accounted.listed.phase
    obtain ⟨rfl, -⟩ := phase.eq_of_spawned accounted.orderly.toSingle hc hspawned
    exact hids
  · intro a ha hopen
    have hmem : a.change ∈ ended history ++ flight := hids ▸ List.mem_map_of_mem ha
    have hflight := (List.mem_append.1 hmem).resolve_left hopen
    exact (orderly.tracked _ (phase.inFlight hflight)).1
  · intro a hlast
    refine ⟨current a hlast, fun hwith => ?_⟩
    obtain ⟨c, hc, -, hcancelled⟩ := listed.concluded _ _ hwith
    exact succeeded a c hlast hc (hcancelled rfl)

/-- A second caller overtakes a change that waits for the instance, and somebody waits for both. -/
def overtaking : List Move :=
  [.act (.call (.change .active "p")), .act (.grant 0), .act (.beginChange 1),
    .act (.call (.change .standby "p")), .act (.call .wait), .act (.grant 2),
    .act (.engine (.noticeCancel 0)), .act (.reportChange 1), .act (.endChange 1),
    .act (.resume 2), .act (.grant 3), .act (.beginChange 4),
    .act (.engine (.pinged 1 .answered)), .act (.engine (.copyLive 1)),
    .act (.engine (.visit 1 .created false)),
    .act (.engine (.collectorPrepared 1 (.prepared false))), .act (.engine (.conclude 1)),
    .act (.engine (.swap 1 .all)), .act (.engine (.cleanUp 1 none)), .act (.engine (.prune 1)),
    .act (.reportChange 4), .act (.endChange 4), .act (.resume 3)]

def overtakingRun : History × Scheduler :=
  Run.follow move (create {} (.create {} ∅) oneDomain []) overtaking

theorem takes_turns_overtaking :
    (accepted overtakingRun.1).map (·.change) = [1, 4] ∧ granted overtakingRun.1 = [0, 2] ∧
      ∃ a, (accepted overtakingRun.1).getLast? = some a ∧ a.state = .standby ∧
        overtakingRun.2.active = a.scheduled ∧
        overtakingRun.2.engine.live.plan = some a.plan := by
  have hrun : Run move (create {} (.create {} ∅) oneDomain []) overtakingRun.1
      overtakingRun.2 := Run.of_follow ..
  have hstays : ∀ y ∈ overtakingRun.1, Stays y := stays_of_none_dropped (by decide +kernel)
  have hready : ∃ y ∈ overtakingRun.1, .changeEnded 4 .ready ∈ y.events := by decide +kernel
  have hlast : (accepted overtakingRun.1).getLast?.map (fun a => (a.change, a.state)) =
      some (4, .standby) := by decide +kernel
  obtain ⟨a, ha, hlast⟩ := Option.map_eq_some_iff.1 hlast
  obtain ⟨hchange, hstate⟩ := Prod.mk.inj hlast
  rw [← hchange] at hready
  refine ⟨by decide +kernel, by decide +kernel, a, ha, hstate, ?_⟩
  exact ((takes_turns hrun hstays).inForce a ha).1 hready

end Cadence.Scheduler
