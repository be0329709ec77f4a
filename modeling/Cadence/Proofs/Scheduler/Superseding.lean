import Cadence.Proofs.Engine.Cancelling
import Cadence.Proofs.Scheduler.Preparing

/-!
# Changes that are superseded

Whoever asks for a plan first ends the change accepted before.  If the
preparation of that change has not looked for the last time whether it is
cancelled, the change is never activated.  If it has, the change goes live all
the same, although it is cancelled.
-/

namespace Cadence

namespace Scheduler

/-- The change is cancelled in time, or over. -/
def Doomed (change : Nat) (s : Scheduler) : Prop :=
  change < s.nextId ∧ ∀ c, s.changes.get? change = some c →
    c.cancelled = true ∧ ∀ preparation, c.stage = .applying preparation →
      s.engine.Abandoned preparation

/-- The step gives the lock to somebody with another plan, who ends this change. -/
def Supersedes (y : Step Scheduler Move SchedulerEvent) (change : Nat) : Prop :=
  ∃ caller state name, y.action = .act (.grant caller) ∧
    y.before.callers.get? caller = some { request := .change state name, stage := .queued } ∧
    y.before.latest = some change ∧
    y.after.callers.get? caller = some { request := .change state name, stage := .awaiting change }

/-- The preparation of the change, if it is at work, is still to look whether it is cancelled. -/
def StillLooks (s : Scheduler) (change : Nat) : Prop :=
  ∃ c, s.changes.get? change = some c ∧ ∀ preparation p, c.stage = .applying preparation →
    s.engine.preparations.get? preparation = some p → p.stage.isConcluded = false

variable {s s' : Scheduler} {action : Move} {events : List SchedulerEvent} {id change : Nat}

theorem goes_of_serves {own : List SchedulerEvent} (serves : Serves s s' action own)
    {later : Preparation} (hlater : s'.engine.preparations.get? id = some later) :
    ∃ p, s.engine.preparations.get? id = some p ∧ Engine.Goes p later := by
  obtain ⟨p, hp, rfl | rfl⟩ := serves.cancelsAtMost.was hlater
  · exact ⟨_, hp, .refl _⟩
  · exact ⟨p, hp, rfl, fun _ => rfl, fun h => h, .inl⟩

theorem goes_of_proceeds {own : List SchedulerEvent} (proceeds : Proceeds s s' action own)
    {later : Preparation} (hold : id < s.engine.nextId)
    (hlater : s'.engine.preparations.get? id = some later) :
    ∃ p, s.engine.preparations.get? id = some p ∧ Engine.Goes p later := by
  have apart : s.engine.Apart s'.engine →
      ∃ p, s.engine.preparations.get? id = some p ∧ Engine.Goes p later := by
    intro hapart
    rw [hapart.preparations] at hlater
    exact ⟨later, hlater, .refl later⟩
  cases proceeds with
  | works _ _ hapart => exact apart hapart
  | pauses _ hapart => exact apart hapart
  | begins _ _ _ _ _ hnext =>
      rw [hnext, Table.get?_insert, if_neg (Nat.ne_of_lt hold)] at hlater
      exact ⟨later, hlater, .refl later⟩
  | goesOn _ _ hp hnext hplan hcancelled hopen hlooked =>
      refine Engine.goes_of_insert hp hnext ⟨hplan, ?_, ?_, fun hconcluded => ?_⟩ hlater
      · simp [hcancelled]
      · simp [hopen]
      · exact .inr (hlooked hconcluded).1
  | swaps _ _ hp hstage hnext =>
      have hconcluded := congrArg PrepareStage.isConcluded hstage
      exact Engine.goes_of_insert hp hnext (.further hconcluded rfl) hlater
  | goesLive _ hp hstage hnext =>
      have hconcluded := congrArg PrepareStage.isConcluded hstage
      exact Engine.goes_of_insert hp hnext (.further hconcluded rfl) hlater
  | breaksOff _ _ _ hnext => exact Engine.goes_of_erase hnext hlater
  | panics _ _ _ hnext => exact Engine.goes_of_erase hnext hlater
  | concludes _ _ _ _ hnext => exact Engine.goes_of_erase hnext hlater
  | reports _ _ _ hapart => exact apart hapart
  | ends _ _ _ _ hapart => exact apart hapart

theorem Serves.nextId_le {own : List SchedulerEvent} (serves : Serves s s' action own) :
    s.engine.nextId ≤ s'.engine.nextId := by
  cases serves with
  | asks _ _ hapart => exact hapart.nextId
  | refuses _ _ _ hapart => exact hapart.nextId
  | accepts _ _ _ _ hapart => exact hapart.nextId
  | awaits _ _ _ _ _ _ hengine => simp [hengine]
  | joins _ _ _ _ hapart => exact hapart.nextId
  | answers _ _ _ hapart => exact hapart.nextId
  | closes _ _ _ hapart => exact hapart.nextId
  | drops _ _ _ hapart => exact hapart.nextId

theorem Proceeds.nextId_le {own : List SchedulerEvent} (proceeds : Proceeds s s' action own) :
    s.engine.nextId ≤ s'.engine.nextId := by
  cases proceeds with
  | works _ _ hapart => exact hapart.nextId
  | pauses _ hapart => exact hapart.nextId
  | begins _ _ _ _ hnextId => exact Nat.le_of_succ_le (Nat.le_of_eq hnextId.symm)
  | goesOn _ hsteady => exact Nat.le_of_eq hsteady.nextId.symm
  | swaps _ hsteady => exact Nat.le_of_eq hsteady.nextId.symm
  | goesLive hsteady => exact Nat.le_of_eq hsteady.nextId.symm
  | breaksOff hsteady => exact Nat.le_of_eq hsteady.nextId.symm
  | panics hsteady => exact Nat.le_of_eq hsteady.nextId.symm
  | concludes hsteady => exact Nat.le_of_eq hsteady.nextId.symm
  | reports _ _ _ hapart => exact hapart.nextId
  | ends _ _ _ _ hapart => exact hapart.nextId

theorem abandoned_of_move (h : s.Linked) (taken : s.move action = some (s', events))
    (habandoned : s.engine.Abandoned id) : s'.engine.Abandoned id := by
  rcases serves_or_proceeds h taken with serves | proceeds
  · exact habandoned.of_goes serves.nextId_le fun _ hlater => goes_of_serves serves hlater
  · exact habandoned.of_goes proceeds.nextId_le fun _ hlater =>
      goes_of_proceeds proceeds habandoned.1 hlater

/-! ## One move -/

/-- The later change is the same one, and cancelled if that was. -/
structure Follows (s s' : Scheduler) (c later : PlanChange) : Prop where
  cancelled : c.cancelled = true → later.cancelled = true
  stage : later.stage = c.stage ∨ (∀ preparation, later.stage ≠ .applying preparation) ∨
    later.stage = .applying s.engine.nextId ∧
      (c.cancelled = true → s'.engine.Abandoned s.engine.nextId)

theorem Follows.refl (c : PlanChange) : Follows s s' c c := ⟨id, .inl rfl⟩

theorem follows_of_insert {k : Nat} {c d later : PlanChange} (hc : s.changes.get? k = some c)
    (hnext : s'.changes = s.changes.insert k d) (hfollows : Follows s s' c d)
    (hlater : s'.changes.get? change = some later) :
    ∃ c, s.changes.get? change = some c ∧ Follows s s' c later := by
  rw [hnext, Table.get?_insert] at hlater
  split at hlater
  · next hid =>
      obtain rfl := Option.some.inj hlater
      exact ⟨c, hid ▸ hc, hfollows⟩
  · exact ⟨later, hlater, .refl later⟩

theorem follows_of_eq {later : PlanChange} (hnext : s'.changes = s.changes)
    (hlater : s'.changes.get? change = some later) :
    ∃ c, s.changes.get? change = some c ∧ Follows s s' c later := by
  rw [hnext] at hlater
  exact ⟨later, hlater, .refl later⟩

theorem follows_of_serves {own : List SchedulerEvent} (serves : Serves s s' action own)
    {later : PlanChange} (hold : change < s.nextId)
    (hlater : s'.changes.get? change = some later) :
    ∃ c, s.changes.get? change = some c ∧ Follows s s' c later := by
  cases serves with
  | asks _ hcontrol => exact follows_of_eq (congrArg Control.changes hcontrol) hlater
  | refuses _ _ hcontrol => exact follows_of_eq (congrArg Control.changes hcontrol) hlater
  | @accepts _ _ state _ levels plan _ _ _ hcontrol =>
      have hchanges : s'.changes = s.changes.insert s.nextId { plan, levels, state } :=
        congrArg Control.changes hcontrol
      rw [hchanges, Table.get?_insert, if_neg (Nat.ne_of_lt hold)] at hlater
      exact ⟨later, hlater, .refl later⟩
  | @awaits _ k _ _ _ _ _ _ hcontrol =>
      have hchanges : s'.changes = s.changes.modify k (fun c => { c with cancelled := true }) :=
        congrArg Control.changes hcontrol
      rw [hchanges, Table.get?_modify] at hlater
      split at hlater
      · next hid =>
          obtain ⟨c, hc, rfl⟩ := Option.map_eq_some_iff.1 hlater
          exact ⟨c, hid ▸ hc, fun _ => rfl, .inl rfl⟩
      · exact ⟨later, hlater, .refl later⟩
  | joins _ _ _ hcontrol => exact follows_of_eq (congrArg Control.changes hcontrol) hlater
  | answers _ _ hcontrol => exact follows_of_eq (congrArg Control.changes hcontrol) hlater
  | closes _ _ hcontrol => exact follows_of_eq (congrArg Control.changes hcontrol) hlater
  | drops _ _ hcontrol => exact follows_of_eq (congrArg Control.changes hcontrol) hlater

theorem follows_of_proceeds {own : List SchedulerEvent} (proceeds : Proceeds s s' action own)
    {later : PlanChange} (hlater : s'.changes.get? change = some later) :
    ∃ c, s.changes.get? change = some c ∧ Follows s s' c later := by
  have ended : ∀ {k c stage}, s.changes.get? k = some c →
      s'.changes = s.changes.insert k { c with stage } →
      (∀ preparation, stage ≠ .applying preparation) →
      ∃ c, s.changes.get? change = some c ∧ Follows s s' c later :=
    fun hc hnext hover => follows_of_insert hc hnext ⟨id, .inr (.inl hover)⟩ hlater
  cases proceeds with
  | works _ hcontrol => exact follows_of_eq (congrArg Control.changes hcontrol) hlater
  | pauses hcontrol => exact follows_of_eq (congrArg Control.changes hcontrol) hlater
  | begins hc _ hcontrol _ hnextId hnext =>
      refine follows_of_insert hc (congrArg Control.changes hcontrol) ?_ hlater
      refine ⟨id, .inr (.inr ⟨rfl, fun hcancelled => ⟨by omega, fun p hp => ?_⟩⟩)⟩
      rw [hnext, Table.get?_insert_self] at hp
      obtain rfl := Option.some.inj hp
      exact ⟨hcancelled, rfl⟩
  | goesOn hcontrol => exact follows_of_eq (congrArg Control.changes hcontrol) hlater
  | swaps hcontrol => exact follows_of_eq (congrArg Control.changes hcontrol) hlater
  | goesLive _ _ _ _ _ _ hcontrol =>
      exact follows_of_eq (congrArg Control.changes hcontrol) hlater
  | breaksOff _ _ _ _ hc _ hcontrol =>
      exact ended hc (congrArg Control.changes hcontrol) (by simp)
  | panics _ _ _ _ hc _ hcontrol => exact ended hc (congrArg Control.changes hcontrol) (by simp)
  | concludes _ _ _ _ _ hc _ hcontrol => exact ended hc (congrArg Control.changes hcontrol) (by simp)
  | reports hc _ hcontrol => exact ended hc (congrArg Control.changes hcontrol) (by simp)
  | ends hc _ _ hcontrol => exact ended hc (congrArg Control.changes hcontrol) (by simp)

theorem Doomed.move (h : s.Doomed change) (linked : s.Linked)
    (taken : s.move action = some (s', events)) : s'.Doomed change := by
  refine ⟨Nat.lt_of_lt_of_le h.1 (moved taken).nextId, fun later hlater => ?_⟩
  have hfollows : ∃ c, s.changes.get? change = some c ∧ Follows s s' c later := by
    rcases serves_or_proceeds linked taken with serves | proceeds
    · exact follows_of_serves serves h.1 hlater
    · exact follows_of_proceeds proceeds hlater
  obtain ⟨c, hc, hcancelled, hstage⟩ := hfollows
  obtain ⟨hc, habandoned⟩ := h.2 c hc
  refine ⟨hcancelled hc, fun preparation happlying => ?_⟩
  rw [happlying] at hstage
  rcases hstage with hsame | hover | ⟨hbegun, hnew⟩
  · exact abandoned_of_move linked taken (habandoned preparation hsame.symm)
  · exact absurd rfl (hover preparation)
  · obtain rfl := ChangeStage.applying.inj hbegun
    exact hnew hc

theorem Doomed.not_activated (h : s.Doomed change) (linked : s.Linked)
    (taken : s.move action = some (s', events)) : .activated change ∉ events := by
  intro hevent
  rw [← mem_own rfl] at hevent
  have waits : ∀ {c preparation p}, s.changes.get? change = some c →
      c.stage = .applying preparation → s.engine.preparations.get? preparation = some p →
      p.stage.isConcluded = true → False := by
    intro c preparation p hc happlying hp hconcluded
    have hopen := (((h.2 c hc).2 preparation happlying).2 p hp).2
    simp [hconcluded] at hopen
  rcases serves_or_proceeds linked taken with serves | proceeds
  · generalize own events = raised at hevent serves
    cases serves <;> simp at hevent
  · generalize own events = raised at hevent proceeds
    cases proceeds with
    | works _ _ _ hown => exact Bool.false_ne_true (hown _ hevent)
    | goesLive _ hp hstage _ hc happlying =>
        obtain rfl : change = _ := by simpa using hevent
        exact waits hc happlying hp (by rw [hstage]; rfl)
    | breaksOff _ hp hstage _ hc happlying =>
        obtain rfl : change = _ := by simpa using hevent
        exact waits hc happlying hp (by rw [hstage]; rfl)
    | _ => simp at hevent

theorem Supersedes.serves {y : Step Scheduler Move SchedulerEvent} (h : Supersedes y change)
    (taken : y.before.move y.action = some (y.after, y.events)) :
    y.after.control.changes =
        y.before.changes.modify change (fun c => { c with cancelled := true }) ∧
      y.after.nextId = y.before.nextId ∧
      y.after.engine = { y.before.engine with preparations := y.before.cancelledIn change } := by
  obtain ⟨caller, state, name, haction, hcaller, hlatest, hwaits⟩ := h
  rw [haction] at taken
  obtain ⟨-, request, hrequest, hcases⟩ := grant_eq_some taken
  have hrequest : request = .change state name := by
    rw [hcaller] at hrequest
    exact (Caller.mk.inj (Option.some.inj hrequest)).1.symm
  obtain ⟨-, -, e, -, -, hnext⟩ | ⟨-, -, -, -, -, -, hnone, -⟩ | ⟨k, -, hk, -, hnext⟩ |
    ⟨hwait, -⟩ | ⟨-, hwait, -⟩ | ⟨hshutdown, -⟩ := hcases
  · have hafter : y.after = y.before.release caller := congrArg Prod.fst hnext
    rw [hafter, release, Table.get?_erase, if_pos rfl] at hwaits
    contradiction
  · rw [hlatest] at hnone
    contradiction
  · obtain rfl := Option.some.inj (hlatest.symm.trans hk)
    have hafter : y.after = (y.before.takeOver change).await caller request change :=
      congrArg Prod.fst hnext
    have hcontrol := y.before.control_takeOver change
    rw [hafter]
    exact ⟨congrArg Control.changes hcontrol, congrArg Control.nextId hcontrol,
      engine_takeOver change⟩
  · rw [hwait] at hrequest
    contradiction
  · rw [hwait] at hrequest
    contradiction
  · rw [hshutdown] at hrequest
    contradiction

/-- A change that is superseded in time is doomed from then on. -/
theorem Supersedes.doomed {y : Step Scheduler Move SchedulerEvent} (h : Supersedes y change)
    (linked : y.before.Linked) (taken : y.before.move y.action = some (y.after, y.events))
    (hlooks : y.before.StillLooks change) : y.after.Doomed change := by
  obtain ⟨c, hc, hopen⟩ := hlooks
  obtain ⟨hchanges, hnextId, hengine⟩ := h.serves taken
  refine ⟨hnextId ▸ linked.changes change c hc, fun later hlater => ?_⟩
  have hmodified : y.after.changes.get? change = some { c with cancelled := true } := by
    change y.after.control.changes.get? change = _
    rw [hchanges, Table.get?_modify, if_pos rfl, hc]
    rfl
  obtain rfl := Option.some.inj (hmodified.symm.trans hlater)
  refine ⟨rfl, fun preparation happlying => ?_⟩
  obtain ⟨p, hp, -⟩ := linked.applying change c preparation hc happlying
  rw [hengine]
  refine ⟨linked.preparations preparation p hp, fun q hq => ?_⟩
  simp only [cancelledIn_of_applying hc happlying, Table.get?_modify, if_pos, hp] at hq
  obtain rfl := Option.some.inj hq
  exact ⟨rfl, hopen preparation p happlying hp⟩

/-! ## Runs -/

/-- The step does not make the change the one that is scheduled. -/
structure Spares (change : Nat) (z : Step Scheduler Move SchedulerEvent) : Prop where
  activated : .activated change ∉ z.events
  active : z.after.active = z.before.active ∨ ∃ other, other ≠ change ∧ .activated other ∈ z.events

theorem spares_of_supersedes {start last : Scheduler} {earlier later : History}
    {y z : Step Scheduler Move SchedulerEvent} (linked : start.Linked)
    (run : Run move start (earlier ++ y :: later) last) (h : Supersedes y change)
    (hlooks : y.before.StillLooks change) (hz : z ∈ later) : Spares change z := by
  obtain ⟨before, taken, after⟩ := run.taken
  have hbefore := linked_of_run linked before
  obtain ⟨⟨hlinked, hdoomed⟩, next⟩ :=
    @Run.invariant_before _ _ _ _ _ _ _ (fun s => s.Linked ∧ s.Doomed change) after
      ⟨hbefore.move taken, h.doomed hbefore taken hlooks⟩
      (fun taken hs => ⟨hs.1.move taken, hs.2.move hs.1 taken⟩) _ hz
  have hnever := hdoomed.not_activated hlinked next
  refine ⟨hnever, ?_⟩
  by_cases hsome : ∃ other, .activated other ∈ z.events
  · obtain ⟨other, hother⟩ := hsome
    refine .inr ⟨other, ?_, hother⟩
    rintro rfl
    exact hnever hother
  · simp only [not_exists] at hsome
    exact .inl ((moved next).active hsome)

/-- A preparation that is cancelled before it has looked for the last time never goes live, and so
a change of plan that is superseded by then is never scheduled.  After that look it ends as if it
had not been cancelled. -/
theorem never_live_if_cancelled_in_time (settings : SchedulerSettings) (engine : EngineSettings)
    (board : Board) (store : PlanStore) (sinks : List String) :
    (∀ {earlier later e last id p}, Run Engine.step (.create engine board) earlier e →
      e.preparations.get? id = some p → Run Engine.step e later last →
      (p.cancelled = true → p.stage.isConcluded = false →
        (∀ y ∈ later, Engine.Spares id y) ∧
        (p.stage ≠ .copying →
          ∃ action next, e.step action = some next ∧ .prepared id .cancelled ∈ next.2)) ∧
      (p.stage.isConcluded = true → ∀ y ∈ later, ∀ outcome, .prepared id outcome ∈ y.events →
        outcome = .ready ∨ outcome = .panicked)) ∧
    ∀ {earlier later y last change},
      Run move (create settings (.create engine board) store sinks) (earlier ++ y :: later) last →
      Supersedes y change → y.before.StillLooks change → ∀ z ∈ later, Spares change z := by
  constructor
  · intro earlier later e last id p before hp after
    have hold := (Engine.numbered_of_run before).preparations id p hp
    constructor
    · intro hcancelled hopen
      have habandoned : e.Abandoned id := by
        refine ⟨hold, fun q hq => ?_⟩
        obtain rfl := Option.some.inj (hp.symm.trans hq)
        exact ⟨hcancelled, hopen⟩
      exact ⟨fun y hy => habandoned.spared after hy, Engine.ends_at_once hp hcancelled hopen⟩
    · intro hconcluded y hy outcome hevent
      have habandoned : e.Concluded id := by
        refine ⟨hold, fun q hq => ?_⟩
        obtain rfl := Option.some.inj (hp.symm.trans hq)
        exact hconcluded
      exact habandoned.outcome_of_run after hy hevent
  · intro earlier later y last change run h hlooks z hz
    exact spares_of_supersedes (linked_create settings engine board store sinks) run h hlooks hz

/-- A first change prepares so far, and then a second one is asked for. -/
def supersededAfter (prepares : List EngineAction) : List Move :=
  [.act (.call (.change .active "p")), .act (.grant 0), .act (.beginChange 1)] ++
    prepares.map (.act ∘ .engine) ++ [.act (.call (.change .standby "p")), .act (.grant 2)]

def allPrepared : List EngineAction :=
  [.pinged 0 .answered, .copyLive 0, .visit 0 .created false,
    .collectorPrepared 0 (.prepared false), .conclude 0]

def lateRun : History × Scheduler :=
  Run.follow move (create {} (.create {} ∅) oneDomain [])
    (supersededAfter allPrepared ++
      [.act (.engine (.swap 0 .all)), .act (.engine (.cleanUp 0 none))])

private theorem length_lateRun : 9 < lateRun.1.length := by
  decide +kernel

/-- The change waits for its swap when it is superseded, and is scheduled afterwards. -/
theorem activated_although_superseded :
    Run move (create {} (.create {} ∅) oneDomain []) lateRun.1 lateRun.2 ∧
      ∃ earlier y later, lateRun.1 = earlier ++ y :: later ∧ Supersedes y 1 ∧
        (y.after.engine.preparations.get? 0).map (·.cancelled) = some true ∧
        y.after.engine.live.plan = none ∧ (∃ z ∈ later, .activated 1 ∈ z.events) ∧
        lateRun.2.active.plan = "p" ∧ lateRun.2.active.state = some .active ∧
        lateRun.2.engine.live.plan.map (·.name) = some "p" := by
  refine ⟨Run.of_follow .., lateRun.1.take 9, lateRun.1.get ⟨9, length_lateRun⟩,
    lateRun.1.drop 10, ?_, ⟨2, .standby, "p", ?_⟩, ?_⟩
  · rw [List.get_eq_getElem, ← List.drop_eq_getElem_cons, List.take_append_drop]
  · decide +kernel
  · decide +kernel

/-- A change is superseded, and its preparation cancelled, before a collector is made for it. -/
def promptRun : History × Scheduler :=
  Run.follow move (create {} (.create {} ∅) oneDomain [])
    (supersededAfter [.pinged 0 .answered, .copyLive 0] ++
      [.act (.engine (.visit 0 .created true)), .act (.reportChange 1), .act (.endChange 1),
        .act (.resume 2)])

private theorem length_promptRun : 6 < promptRun.1.length := by
  decide +kernel

def promptCancel : List (Step Engine EngineAction EngineEvent) × Engine :=
  Run.follow Engine.step (.create {} ∅)
    [.beginPrepare (.ofLevels "p" "inline" ∅) false, .pinged 0 .answered, .copyLive 0, .cancel 0]

theorem never_live_if_cancelled_in_time_prompt :
    (∃ p, promptCancel.2.preparations.get? 0 = some p ∧ p.cancelled = true ∧
      ∃ action next, promptCancel.2.step action = some next ∧ .prepared 0 .cancelled ∈ next.2) ∧
    ∃ earlier y later, promptRun.1 = earlier ++ y :: later ∧ Supersedes y 1 ∧ later ≠ [] ∧
      ∀ z ∈ later, Spares 1 z := by
  constructor
  · have hrun : Run Engine.step (.create {} ∅) promptCancel.1 promptCancel.2 := Run.of_follow ..
    have hopen : (promptCancel.2.preparations.get? 0).map
        (fun p => (p.cancelled, p.stage)) = some (true, .visiting []) := by decide +kernel
    obtain ⟨p, hp, hopen⟩ := Option.map_eq_some_iff.1 hopen
    obtain ⟨hcancelled, hstage⟩ := Prod.mk.inj hopen
    obtain ⟨hspared, -⟩ := (never_live_if_cancelled_in_time {} {} ∅ .empty []).1 hrun hp .nil
    refine ⟨p, hp, hcancelled, (hspared hcancelled ?_).2 ?_⟩
    · rw [hstage]
      rfl
    · simp [hstage]
  · have hrun : Run move (create {} (.create {} ∅) oneDomain []) promptRun.1 promptRun.2 :=
      Run.of_follow ..
    have hsplit : promptRun.1 =
        promptRun.1.take 6 ++ promptRun.1.get ⟨6, length_promptRun⟩ :: promptRun.1.drop 7 := by
      rw [List.get_eq_getElem, ← List.drop_eq_getElem_cons, List.take_append_drop]
    have hsupersedes : Supersedes (promptRun.1.get ⟨6, length_promptRun⟩) 1 :=
      ⟨2, .standby, "p", by decide +kernel⟩
    have hlooks : (promptRun.1.get ⟨6, length_promptRun⟩).before.StillLooks 1 := by
      have hstage : ((promptRun.1.get ⟨6, length_promptRun⟩).before.changes.get? 1).map (·.stage) =
          some (.applying 0) := by decide +kernel
      have hopen : ((promptRun.1.get ⟨6, length_promptRun⟩).before.engine.preparations.get? 0).map
          (·.stage.isConcluded) = some false := by decide +kernel
      obtain ⟨c, hc, hstage⟩ := Option.map_eq_some_iff.1 hstage
      refine ⟨c, hc, fun preparation p happlying hp => ?_⟩
      obtain rfl := ChangeStage.applying.inj (hstage.symm.trans happlying)
      rw [hp] at hopen
      exact Option.some.inj hopen
    refine ⟨_, _, _, hsplit, hsupersedes, by decide +kernel, ?_⟩
    rw [hsplit] at hrun
    exact (never_live_if_cancelled_in_time {} {} ∅ oneDomain []).2 hrun hsupersedes hlooks

end Scheduler

end Cadence
