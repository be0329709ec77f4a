import Cadence.Proofs.Scheduler.Ledgers
import Mathlib.Data.List.Nodup

/-!
# Ticks, rounds and deliveries

Until a run is told to stop, every tick with a level due is handed to a worker or
counted as dropped, and the ledgers of the workers balance.
-/

namespace Cadence.Scheduler

variable {s s' : Scheduler} {events : List SchedulerEvent} {history : History}
  {y : Step Scheduler Move SchedulerEvent}

/-! ## One tick -/

/-- The number of the tick to come. -/
def nextTick (s : Scheduler) : Nat := (s.run.map (·.ticks)).getD 0 + 1

/-- Collection is paused, a change is in flight, no plan is active, or no level is due. -/
def NothingDue (s : Scheduler) (tick : Nat) : Prop :=
  s.paused = true ∨ s.changing = true ∨ s.active.state = none ∨
    dueLevel? s.active.levels tick = none

instance (s : Scheduler) (tick : Nat) : Decidable (s.NothingDue tick) :=
  inferInstanceAs (Decidable (_ ∨ _ ∨ _ ∨ _))

/-- What a tick comes to, by what it tells others. -/
inductive Ticked (s s' : Scheduler) : List SchedulerEvent → Prop
  | nothing : s.NothingDue s.nextTick → s'.dropped = s.dropped →
      (∀ name, s'.workerOf name = s.workerOf name) → Ticked s s' []
  | hands {name : WorkerName} {level : SortedLevel} {state : InstanceState} {order : Order} :
      ¬ s.NothingDue s.nextTick → dueLevel? s.active.levels s.nextTick = some level →
      s.active.state = some state →
      order = { tick := s.nextTick, level := level.name, plan := s.active.plan, state } →
      (s.workerOf name).Free → s'.dropped = s.dropped →
      s'.workerOf name = { s.workerOf name with idle := false, inbox := some order } →
      (∀ other, other ≠ name → s'.workerOf other = s.workerOf other) →
      Ticked s s' [.handed name order]
  | drops : ¬ s.NothingDue s.nextTick → (∀ name, ¬ (s.workerOf name).Free) →
      s'.dropped = s.dropped + 1 → (∀ name, s'.workerOf name = s.workerOf name) →
      Ticked s s' [.droppedTick s.nextTick]

theorem orderAt_eq_none_iff {tick : Nat} : s.orderAt tick = none ↔ s.NothingDue tick := by
  unfold orderAt NothingDue
  cases s.paused <;> cases s.changing <;> cases s.active.state <;>
    cases dueLevel? s.active.levels tick <;> simp

theorem orderAt_eq_some {tick : Nat} {order : Order} (h : s.orderAt tick = some order) :
    ¬ s.NothingDue tick ∧ ∃ level state, dueLevel? s.active.levels tick = some level ∧
      s.active.state = some state ∧
      order = { tick, level := level.name, plan := s.active.plan, state } := by
  have hdue : ¬ s.NothingDue tick := by simp [← orderAt_eq_none_iff, h]
  refine ⟨hdue, ?_⟩
  unfold orderAt at h
  split at h
  · contradiction
  · split at h
    · next level state hlevel hstate =>
        exact ⟨level, state, hlevel, hstate, (Option.some.inj h).symm⟩
    · contradiction

theorem ticked_of_tick (h : s.Manned) (taken : s.tick = some (s', events)) :
    Ticked s s' events := by
  obtain ⟨run, hrun, -, hcases⟩ := tick_eq_some taken
  have hnext : s.nextTick = run.ticks + 1 := by simp [nextTick, hrun]
  rw [← hnext] at hcases
  obtain ⟨hnone, hnext⟩ | ⟨order, horder, ⟨run', name, hoffer, hnext⟩ | ⟨run', hoffer, hnext⟩⟩ :=
    hcases
  · cases hnext
    exact .nothing (orderAt_eq_none_iff.1 hnone) rfl (workerOf_ticks hrun rfl)
  · cases hnext
    obtain ⟨hfree, rfl⟩ := h.offer_some hrun hoffer
    obtain ⟨hdue, level, state, hlevel, hstate, rfl⟩ := orderAt_eq_some horder
    refine .hands hdue hlevel hstate rfl hfree rfl ?_ fun other hother => ?_
    · rw [workerOf_offered hrun rfl, if_pos rfl]
    · rw [workerOf_offered hrun rfl, if_neg hother]
  · cases hnext
    obtain ⟨hnone, rfl⟩ := h.offer_none hrun hoffer
    exact .drops (orderAt_eq_some horder).1 hnone rfl (workerOf_ticks hrun rfl)

theorem tick_frame (taken : s.tick = some (s', events)) :
    s'.engine = s.engine ∧ s'.control = s.control := by
  obtain ⟨run, -, -, ⟨-, ⟨⟩⟩ | ⟨order, -, ⟨run', name, -, ⟨⟩⟩ | ⟨run', -, ⟨⟩⟩⟩⟩ :=
    tick_eq_some taken <;> exact ⟨rfl, rfl⟩

/-! ## Counting -/

def ticks (history : History) : History := history.filter (·.action = .act .tick)

/-- The ticks with a level due, outside pauses and changes. -/
def dueTicks (history : History) : History :=
  (ticks history).filter (fun y => ¬ y.before.NothingDue y.before.nextTick)

structure Counted (dropped : Nat) (history : History) (s : Scheduler) : Prop where
  number : s.nextTick = (ticks history).length + 1
  due : (dueTicks history).length + dropped = (ledger .primary history).handed.length +
    (ledger .secondary history).handed.length + s.dropped

theorem ticks_of_ne (h : y.action ≠ .act .tick) : ticks [y] = [] := by
  simp [ticks, h]

theorem dueTicks_of_tick (h : y.action = .act .tick) :
    dueTicks [y] = if y.before.NothingDue y.before.nextTick then [] else [y] := by
  split <;> simp_all [dueTicks, ticks]

theorem handed_step (name : WorkerName) :
    (ledger name [y]).handed = (worked y.events).filterMap (·.handedTo? name) := by
  rw [ledger_step]
  rfl

theorem Counted.snoc {dropped : Nat} (h : Counted dropped history y.before)
    (hticks : y.after.nextTick = y.before.nextTick + (ticks [y]).length)
    (hdue : (dueTicks [y]).length + y.before.dropped = (ledger .primary [y]).handed.length +
      (ledger .secondary [y]).handed.length + y.after.dropped) :
    Counted dropped (history ++ [y]) y.after := by
  obtain ⟨number, due⟩ := h
  constructor
  · rw [ticks, List.filter_append, List.length_append]
    rw [ticks] at number hticks
    omega
  · have hsplit : dueTicks (history ++ [y]) = dueTicks history ++ dueTicks [y] := by
      simp only [dueTicks, ticks, List.filter_append]
    simp only [hsplit, ledger_append, Ledger.handed_append, List.length_append]
    omega

theorem Counted.drives {dropped : Nat} (h : Counted dropped history y.before)
    (manned : y.before.Manned) (sole : y.before.Sole) (hstop : y.action ≠ .act .requestStop)
    (drives : Drives y.before y.after y.action (worked y.events)) :
    Counted dropped (history ++ [y]) y.after := by
  obtain ⟨run, hrun, hticking, -⟩ := manned.going
  have hnext : y.before.nextTick = run.ticks + 1 := by simp [nextTick, hrun]
  -- a step that is no tick neither hands over an order nor drops a tick
  have other : y.action ≠ .act .tick → y.after.nextTick = y.before.nextTick →
      y.after.dropped = y.before.dropped →
      (∀ name, (worked y.events).filterMap (·.handedTo? name) = []) →
      Counted dropped (history ++ [y]) y.after := by
    intro haction hsame hdropped hnone
    refine h.snoc (by simp [ticks_of_ne haction, hsame]) ?_
    rw [handed_step, handed_step, hnone, hnone, hdropped]
    simp [dueTicks, ticks_of_ne haction]
  have same : y.after.run = y.before.run → y.after.nextTick = y.before.nextTick := fun hsame => by
    rw [nextTick, hsame, nextTick]
  have working : ∀ {name : WorkerName} {w : Worker}, y.after.run = some (run.setWorker name w) →
      y.after.nextTick = y.before.nextTick := fun hrun' => by
    simp [nextTick, hrun', hrun]
  have ticked : ∀ {run' : SchedulerRun}, y.action = .act .tick → y.after.run = some run' →
      run'.ticks = run.ticks + 1 →
      y.after.nextTick = y.before.nextTick + (ticks [y]).length := by
    intro run' haction hrun' hticks
    simp [nextTick, hrun', hrun, hticks, ticks, haction]
  generalize hraised : worked y.events = raised at drives
  generalize haction : y.action = action at drives
  rw [hraised] at other
  cases drives with
  | aside hkind hsame hdropped =>
      refine other ?_ (same hsame) hdropped (by simp)
      rw [haction]
      rintro rfl
      contradiction
  | starts hnone => simp [hnone] at hrun
  | halts hother _ hwhy => exact absurd hwhy (manned.not_halting hother (haction ▸ hstop))
  | closes turn => exact absurd turn (sole.not_turn hrun hticking _)
  | finishes hother hclosing =>
      obtain rfl := Option.some.inj (hrun.symm.trans hother)
      simp [hticking] at hclosing
  | passes hother _ hnone hrun' hdropped =>
      obtain rfl := Option.some.inj (hrun.symm.trans hother)
      rw [← hnext] at hnone
      refine h.snoc (ticked haction hrun' rfl) ?_
      rw [dueTicks_of_tick haction, if_pos (orderAt_eq_none_iff.1 hnone), handed_step, handed_step,
        hraised, hdropped]
      rfl
  | @hands _ _ order taker hother _ horder hoffer hrun' hdropped =>
      obtain rfl := Option.some.inj (hrun.symm.trans hother)
      obtain ⟨-, rfl⟩ := manned.offer_some hrun hoffer
      rw [← hnext] at horder
      refine h.snoc (ticked haction hrun' (SchedulerRun.ticks_setWorker ..)) ?_
      rw [dueTicks_of_tick haction, if_neg (orderAt_eq_some horder).1, handed_step, handed_step,
        hraised, hdropped]
      cases taker <;> simp [SchedulerEvent.handedTo?]
  | drops hother _ horder hoffer hrun' hdropped =>
      obtain rfl := Option.some.inj (hrun.symm.trans hother)
      obtain ⟨-, rfl⟩ := manned.offer_none hrun hoffer
      rw [← hnext] at horder
      refine h.snoc (ticked haction hrun' rfl) ?_
      rw [dueTicks_of_tick haction, if_neg (orderAt_eq_some horder).1, handed_step, handed_step,
        hraised, hdropped]
      simp [SchedulerEvent.handedTo?]
      omega
  | readies hother _ hrun' hdropped =>
      obtain rfl := Option.some.inj (hrun.symm.trans hother)
      exact other (by simp [haction]) (working hrun') hdropped (by simp)
  | takes hother _ _ hrun' hdropped =>
      obtain rfl := Option.some.inj (hrun.symm.trans hother)
      exact other (by simp [haction]) (working hrun') hdropped (by simp)
  | goesOn hsame hdropped => exact other (by simp [haction]) (same hsame) hdropped (by simp)
  | collects hother _ hrun' hdropped =>
      obtain rfl := Option.some.inj (hrun.symm.trans hother)
      exact other (by simp [haction]) (working hrun') hdropped
        (by simp [SchedulerEvent.handedTo?])
  | unclaimed _ hsame hdropped =>
      exact other (by simp [haction]) (same hsame) hdropped (by simp [SchedulerEvent.handedTo?])
  | delivers hother _ hrun' hdropped =>
      obtain rfl := Option.some.inj (hrun.symm.trans hother)
      exact other (by simp [haction]) (working hrun') hdropped
        (by simp [SchedulerEvent.handedTo?])

/-! ## Rounds -/

/-- No round is begun or collected twice. -/
structure Distinct (history : History) (s : Scheduler) : Prop where
  begun : (roundsBegun history).Nodup
  below : ∀ id ∈ roundsBegun history, id < s.engine.nextId
  collected : (roundsCollected history).Nodup
  closed : ∀ id ∈ roundsCollected history,
    id < s.engine.nextId ∧ s.engine.rounds.get? id = none

theorem roundsBegun_snoc :
    roundsBegun (history ++ [y]) = roundsBegun history ++ (begins? y).toList.map (·.2.2) := by
  cases hbegins : begins? y <;> simp [roundsBegun, hbegins]

theorem roundsCollected_snoc :
    roundsCollected (history ++ [y]) =
      roundsCollected history ++ ((worked y.events).filterMap (·.collected?)).map (·.1) := by
  rw [filterMap_worked fun _ => collected?_of_not_work]
  simp [roundsCollected]

theorem Distinct.snoc (h : Distinct history y.before)
    (hnextId : y.before.engine.nextId ≤ y.after.engine.nextId)
    (hbegun : begins? y = none ∨ ∃ b, begins? y = some b ∧ b.2.2 = y.before.engine.nextId ∧
      y.before.engine.nextId < y.after.engine.nextId)
    (hclosed : ∀ id, id < y.before.engine.nextId → y.before.engine.rounds.get? id = none →
      y.after.engine.rounds.get? id = none)
    (hcollected : (worked y.events).filterMap (·.collected?) = [] ∨ ∃ id batch r,
      (worked y.events).filterMap (·.collected?) = [(id, batch)] ∧ id < y.before.engine.nextId ∧
      y.before.engine.rounds.get? id = some r ∧ y.after.engine.rounds.get? id = none) :
    Distinct (history ++ [y]) y.after := by
  obtain ⟨begun, below, collected, closed⟩ := h
  have old : ∀ id ∈ roundsCollected history,
      id < y.after.engine.nextId ∧ y.after.engine.rounds.get? id = none := fun id hid => by
    obtain ⟨hlt, hnone⟩ := closed id hid
    exact ⟨Nat.lt_of_lt_of_le hlt hnextId, hclosed id hlt hnone⟩
  have opened : (roundsBegun (history ++ [y])).Nodup ∧
      ∀ id ∈ roundsBegun (history ++ [y]), id < y.after.engine.nextId := by
    rw [roundsBegun_snoc]
    rcases hbegun with hnone | ⟨b, hsome, hround, hlt⟩
    · rw [hnone, Option.toList_none, List.map_nil, List.append_nil]
      exact ⟨begun, fun id hid => Nat.lt_of_lt_of_le (below id hid) hnextId⟩
    · rw [hsome, Option.toList_some, List.map_singleton, hround]
      refine ⟨?_, fun id hid => ?_⟩
      · rw [← List.concat_eq_append]
        exact begun.concat fun hid => Nat.lt_irrefl _ (below _ hid)
      · rcases List.mem_append.1 hid with hid | hid
        · exact Nat.lt_of_lt_of_le (below id hid) hnextId
        · rwa [List.mem_singleton.1 hid]
  refine ⟨opened.1, opened.2, ?_, ?_⟩ <;> rw [roundsCollected_snoc] <;>
    obtain hnone | ⟨id, batch, r, hsome, hlt, hr, hgone⟩ := hcollected
  · simpa [hnone] using collected
  · rw [hsome, List.map_singleton, ← List.concat_eq_append]
    refine collected.concat fun hid => ?_
    rw [(closed id hid).2] at hr
    contradiction
  · simpa [hnone] using old
  · rw [hsome, List.map_singleton]
    intro other hother
    rcases List.mem_append.1 hother with hother | hother
    · exact old other hother
    · rw [List.mem_singleton.1 hother]
      exact ⟨Nat.lt_of_lt_of_le hlt hnextId, hgone⟩

theorem Distinct.drives (h : Distinct history y.before) (manned : y.before.Manned)
    (sole : y.before.Sole) (below : y.before.RoundsBelow) (hstop : y.action ≠ .act .requestStop)
    (drives : Drives y.before y.after y.action (worked y.events)) :
    Distinct (history ++ [y]) y.after := by
  obtain ⟨run, hrun, hticking, -⟩ := manned.going
  have silent := begins?_of_not_takes (y := y)
  have same : y.before.engine.SameRounds y.after.engine → begins? y = none →
      (worked y.events).filterMap (·.collected?) = [] → Distinct (history ++ [y]) y.after :=
    fun hsame hbegins hnone =>
      h.snoc hsame.nextId (.inl hbegins) (fun id _ hid => hsame.rounds ▸ hid) (.inl hnone)
  have erased : ∀ {id r batch}, y.before.engine.rounds.get? id = some r →
      y.after.engine.nextId = y.before.engine.nextId →
      y.after.engine.rounds = y.before.engine.rounds.erase id → begins? y = none →
      (worked y.events).filterMap (·.collected?) = [(id, batch)] →
      Distinct (history ++ [y]) y.after := by
    intro id r batch hr hnextId hrounds hbegins hcollected
    refine h.snoc (Nat.le_of_eq hnextId.symm) (.inl hbegins) (fun other _ hother => ?_)
      (.inr ⟨id, batch, r, hcollected, below id r hr, hr, ?_⟩)
    · rw [hrounds, Table.get?_erase]
      split
      · rfl
      · exact hother
    · rw [hrounds, Table.get?_erase, if_pos rfl]
  generalize hraised : worked y.events = raised at drives
  generalize haction : y.action = action at drives
  rw [hraised] at same
  rw [haction] at silent
  cases drives with
  | aside hkind _ _ hsame =>
      exact same hsame (silent (by rintro name rfl; contradiction)) rfl
  | starts hnone => simp [hnone] at hrun
  | halts hother _ hwhy => exact absurd hwhy (manned.not_halting hother (haction ▸ hstop))
  | closes turn => exact absurd turn (sole.not_turn hrun hticking _)
  | finishes hother hclosing =>
      obtain rfl := Option.some.inj (hrun.symm.trans hother)
      simp [hticking] at hclosing
  | passes _ _ _ _ _ hengine => exact same (hengine ▸ .refl _) (silent (by simp)) rfl
  | hands _ _ _ _ _ _ hengine => exact same (hengine ▸ .refl _) (silent (by simp)) rfl
  | drops _ _ _ _ _ _ hengine => exact same (hengine ▸ .refl _) (silent (by simp)) rfl
  | readies _ _ _ _ hsame => exact same hsame (silent (by simp)) rfl
  | @takes _ taker order hother _ _ hrun' _ hrounds hnextId =>
      have hbegins : begins? y = some (taker, order, y.before.engine.nextId) := by
        rw [begins?_of_takes haction, workerOf_of_run hrun', SchedulerRun.worker_setWorker_self]
        rfl
      refine h.snoc (by omega) (.inr ⟨_, hbegins, rfl, by omega⟩) (fun id hlt hid => ?_)
        (.inl (by rw [hraised]; rfl))
      rw [hrounds, Table.get?_insert, if_neg (Nat.ne_of_lt hlt)]
      exact hid
  | @goesOn _ id r _ _ _ hnextId hr hrounds =>
      refine h.snoc (Nat.le_of_eq hnextId.symm) (.inl (silent (by simp)))
        (fun other _ hother => ?_) (.inl (by rw [hraised]; rfl))
      have hne : other ≠ id := by
        rintro rfl
        rw [hr] at hother
        contradiction
      rw [hrounds, Table.get?_insert, if_neg hne]
      exact hother
  | collects _ _ _ _ hnextId hr hrounds =>
      exact erased hr hnextId hrounds (silent (by simp)) (by rw [hraised]; rfl)
  | unclaimed _ _ _ hnextId hr hrounds =>
      exact erased hr hnextId hrounds (silent (by simp)) (by rw [hraised]; rfl)
  | delivers _ _ _ _ hsame => exact same hsame (silent (by simp)) rfl

/-! ## Runs -/

variable {settings : SchedulerSettings} {sinks : List String} {dropped : Nat}

/-- What holds between runs as well as during one. -/
structure Tidy (settings : SchedulerSettings) (sinks : List String) (s : Scheduler) : Prop where
  linked : s.Linked
  sole : s.Sole
  below : s.RoundsBelow
  configured : s.settings = settings ∧ s.sinks = sinks

structure Working (settings : SchedulerSettings) (sinks : List String) (dropped : Nat)
    (history : History) (s : Scheduler) : Prop extends Tidy settings sinks s where
  manned : s.Manned
  ledgers : ∀ name, (ledger name history).Balances settings sinks (s.workerOf name)
  distinct : Distinct history s
  counted : Counted dropped history s

theorem tidy_create (engine : EngineSettings) (board : Board) (store : PlanStore) :
    Tidy settings sinks (create settings (.create engine board) store sinks) where
  linked := linked_create ..
  sole := by simp [Sole, create, say, setStatus]
  below := by simp [RoundsBelow, create, say, setStatus, Engine.create, Engine.say]
  configured := ⟨rfl, rfl⟩

theorem Tidy.move {action : Move} (h : Tidy settings sinks s)
    (taken : s.move action = some (s', events)) : Tidy settings sinks s' where
  linked := h.linked.move taken
  sole := h.sole.move h.linked taken
  below := h.below.drives (drives_of_move taken)
  configured := by
    have fixed := fixed_of_move taken
    exact ⟨fixed.settings.trans h.configured.1, fixed.sinks.trans h.configured.2⟩

theorem Tidy.startRun (h : Tidy settings sinks s) (taken : s.startRun = some (s', events)) :
    Working settings sinks s.dropped [] s' := by
  have tidy : Tidy settings sinks s' :=
    h.move (show s.move (.act .startRun) = some (s', events) from taken)
  obtain ⟨-, ⟨⟩⟩ := startRun_eq_some taken
  have fresh : ∀ name, ({ s with run := some {} } : Scheduler).workerOf name = {} := by
    rintro (_ | _) <;> rfl
  refine { tidy with manned := ?_, ledgers := ?_, distinct := ?_, counted := ?_ }
  · refine ⟨⟨{}, rfl, rfl, rfl⟩, fun name => ?_, fun name => ?_, fun name => ?_⟩
    · rw [fresh]
      exact Worker.sound_new
    · simp [fresh, Worker.current]
    · simp [fresh, Worker.current]
  · intro name
    rw [fresh]
    exact ⟨rfl, rfl, by simp [ledger], rfl⟩
  · exact ⟨by simp [roundsBegun], by simp [roundsBegun], by simp [roundsCollected],
      by simp [roundsCollected]⟩
  · exact ⟨rfl, by simp [dueTicks, ticks, ledger]⟩

theorem Working.snoc (h : Working settings sinks dropped history y.before)
    (hstop : y.action ≠ .act .requestStop)
    (taken : y.before.move y.action = some (y.after, y.events)) :
    Working settings sinks dropped (history ++ [y]) y.after := by
  have drives := drives_of_move taken
  have labors := labors_of_drives h.manned h.sole hstop drives
  obtain ⟨hsettings, hsinks⟩ := h.configured
  refine { h.move taken with manned := ?_, ledgers := ?_, distinct := ?_, counted := ?_ }
  · exact h.manned.drives h.sole h.below hstop drives fun name =>
      (labors name).sound (h.manned.sound name)
  · intro name
    have hbefore := h.ledgers name
    rw [← hsettings, ← hsinks] at hbefore ⊢
    rw [ledger_append]
    exact (labors name).balances hbefore
  · exact h.distinct.drives h.manned h.sole h.below hstop drives
  · exact h.counted.drives h.manned h.sole hstop drives

theorem working_of_run {start last : Scheduler} (h : Working settings sinks dropped [] start)
    (run : Run move start history last) (going : ∀ y ∈ history, y.action ≠ .act .requestStop) :
    Working settings sinks dropped history last := by
  induction run with
  | nil => exact h
  | snoc run taken ih =>
      have hbefore := ih fun y hy => going y (List.mem_append_left _ hy)
      exact hbefore.snoc (going _ (List.mem_append_right _ (List.mem_singleton_self _))) taken

/-- What ticks, rounds and deliveries have come to. -/
structure Balanced (settings : SchedulerSettings) (sinks : List String) (dropped : Nat)
    (history : History) (last : Scheduler) : Prop where
  ticked : ∀ y ∈ history, y.action = .act .tick → Ticked y.before y.after y.events
  /-- A tick touches nothing but the run and the count of dropped ticks. -/
  spared : ∀ y ∈ history, y.action = .act .tick →
    y.after.engine = y.before.engine ∧ y.after.control = y.before.control
  number : last.nextTick = (ticks history).length + 1
  due : (dueTicks history).length + dropped = (ledger .primary history).handed.length +
    (ledger .secondary history).handed.length + last.dropped
  /-- Whoever is offered an order can take it. -/
  flag : ∀ name, (last.workerOf name).idle = true ↔ (last.workerOf name).Free
  ledgers : ∀ name, (ledger name history).Balances settings sinks (last.workerOf name)
  begun : (roundsBegun history).Nodup
  collected : (roundsCollected history).Nodup
  /-- Nobody waits with an order and cannot go on. -/
  takes : ∀ name order, (last.workerOf name).inbox = some order →
    (last.move (.act (.takeOrder name))).isSome = true
  collects : ∀ name order round, (last.workerOf name).current = some (order, round) →
    ∃ r, last.engine.rounds.get? round = some r ∧ r.level = order.level
  sends : ∀ name, (last.workerOf name).pending ≠ [] →
    (last.move (.act (.delivered name))).isSome = true

theorem Manned.takes_order (h : s.Manned) {name : WorkerName} {order : Order}
    (hinbox : (s.workerOf name).inbox = some order) :
    (s.move (.act (.takeOrder name))).isSome = true := by
  obtain ⟨run, hrun, -⟩ := h.going
  have hwaiting := (h.sound name).inbox order hinbox
  rw [workerOf_of_run hrun] at hinbox hwaiting
  simp only [move, step, takeOrder, withRun, hrun, Option.bind_some, hwaiting, hinbox,
    Option.isSome_some]

theorem Manned.delivers (h : s.Manned) {name : WorkerName}
    (hpending : (s.workerOf name).pending ≠ []) :
    (s.move (.act (.delivered name))).isSome = true := by
  obtain ⟨run, hrun, -⟩ := h.going
  rw [workerOf_of_run hrun] at hpending
  unfold Worker.pending at hpending
  split at hpending
  · next order batch sinks hsending =>
      cases sinks with
      | nil => simp at hpending
      | cons sink sinks =>
          simp only [move, step, delivered, withRun, hrun, Option.bind_some, hsending,
            Option.isSome_some]
  · contradiction

/-- However the moves mix, from the start of a run until it is told to stop. -/
theorem balanced_until_stopped {engine : EngineSettings} {board : Board} {store : PlanStore}
    {earlier later : History} {start : Step Scheduler Move SchedulerEvent} {last : Scheduler}
    (run : Run move (create settings (.create engine board) store sinks)
      (earlier ++ start :: later) last)
    (starts : start.action = .act .startRun) (going : ∀ y ∈ later, y.action ≠ .act .requestStop) :
    Balanced settings sinks start.before.dropped later last := by
  obtain ⟨before, started, after⟩ := run.taken
  rw [starts] at started
  have tidy := before.invariant (tidy_create engine board store) fun taken h => h.move taken
  have fresh := tidy.startRun started
  have working := working_of_run fresh after going
  refine ⟨?_, ?_, working.counted.number, working.counted.due,
    fun name => (working.manned.sound name).idle, working.ledgers, working.distinct.begun,
    working.distinct.collected, fun _ _ => working.manned.takes_order, working.manned.opened,
    fun _ => working.manned.delivers⟩ <;> intro y hy htick
  · obtain ⟨pre, post, rfl⟩ := List.append_of_mem hy
    obtain ⟨shorter, taken, -⟩ := after.taken
    have manned := (working_of_run fresh shorter fun z hz =>
      going z (List.mem_append_left _ hz)).manned
    rw [htick] at taken
    exact ticked_of_tick manned taken
  · obtain ⟨pre, post, rfl⟩ := List.append_of_mem hy
    obtain ⟨-, taken, -⟩ := after.taken
    rw [htick] at taken
    exact tick_frame taken

/-- Marks the plan of a batch, once more each time it is applied. -/
def marked (b : Batch) : Batch := { b with plan := b.plan ++ "!" }

/-- Both workers are busy at the third tick; the fourth falls into a pause. -/
def busy : List Move :=
  [.act (.startWorker .primary), .act (.startWorker .secondary),
    .act (.call (.change .standby "p")), .act (.grant 0), .act (.beginChange 1),
    .act (.engine (.pinged 0 .answered)), .act (.engine (.copyLive 0)),
    .act (.engine (.visit 0 .created false)),
    .act (.engine (.collectorPrepared 0 (.prepared false))), .act (.engine (.conclude 0)),
    .act (.engine (.swap 0 .all)), .act (.engine (.cleanUp 0 none)), .act (.engine (.prune 0)),
    .act (.reportChange 1), .act (.endChange 1),
    .act .tick, .act (.takeOrder .primary), .act .tick, .act .tick,
    .act (.engine (.enter 1 default)), .act (.engine (.startTask 1 "cpu")),
    .act (.engine (.loseTask 1 "cpu")), .act (.engine (.close 1 default)),
    .act (.delivered .primary), .act (.delivered .primary), .act .pause, .act .tick]

def marking : SchedulerSettings := { transform := some marked }

def beforeBusy : Scheduler := create marking (.create {} ∅) oneDomain ["log", "json"]

def busyRun : History × Scheduler := Run.follow move { beforeBusy with run := some {} } busy

theorem balanced_until_stopped_busy :
    (dueTicks busyRun.1).length = 3 ∧ busyRun.2.dropped = 1 ∧
      (ledger .primary busyRun.1).collected.map (fun c => (c.batch.plan, c.batch.state)) =
        [("p", .active)] ∧
      (ledger .primary busyRun.1).sent.map (fun x => (x.1, x.2.plan, x.2.state)) =
        [("log", "p!", .standby), ("json", "p!", .standby)] ∧
      (ledger .secondary busyRun.1).handed.map (·.tick) = [2] ∧
      Balanced marking ["log", "json"] 0 busyRun.1 busyRun.2 := by
  have started : beforeBusy.move (.act .startRun) = some ({ beforeBusy with run := some {} }, []) :=
    rfl
  have rest : Run move { beforeBusy with run := some {} } busyRun.1 busyRun.2 := Run.of_follow ..
  have hrun : Run move beforeBusy
      ([] ++ ⟨beforeBusy, .act .startRun, { beforeBusy with run := some {} }, []⟩ :: busyRun.1)
      busyRun.2 := Run.cons (x := ⟨_, _, _, _⟩) started rest
  have hgoing : ∀ y ∈ busyRun.1, y.action ≠ .act .requestStop := by decide +kernel
  refine ⟨by decide +kernel, by decide +kernel, by decide +kernel, by decide +kernel,
    by decide +kernel, ?_⟩
  exact balanced_until_stopped hrun rfl hgoing

end Cadence.Scheduler
