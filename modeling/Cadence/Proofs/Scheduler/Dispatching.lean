import Cadence.Proofs.Engine.Coverage
import Cadence.Proofs.Scheduler.Accounting
import Cadence.Proofs.Scheduler.Agreement
import Cadence.Proofs.Scheduler.Superseding

/-!
# What is handed out can be collected

A move is at most one step of the engine, so what every step of an engine keeps
holds of the engine of a scheduler as well.  With that, and as scheduler and
engine agree, every level that a tick hands out is one of the live plan.  A round
of it covers the domains of this level, unless its order is still waiting when
another plan is swapped in: nothing then says that this plan has such a level.
-/

namespace Cadence.Scheduler

/-- What becomes of the engine in a move, but for the board. -/
inductive Engages (s : Scheduler) (action : Move) : Engine → Prop
  | rests : Engages s action s.engine
  | acts {inner : EngineAction} {engine : Engine} {raised : List EngineEvent} :
      s.engine.step inner = some (engine, raised) →
      (inner.isInner = true → action = .act (.engine inner)) → Engages s action engine
  | drops (round : Nat) : Engages s action (s.engine.dropRound round)

def SwappedIn (history : History) : Prop :=
  ∃ y ∈ history, ∃ id, y.action = .act (.engine (.swap id .all))

variable {s s' : Scheduler} {action : Move} {events : List SchedulerEvent}
  {history steps : History} {y : Step Scheduler Move SchedulerEvent} {id change : Nat}
  {settings : SchedulerSettings} {engine : EngineSettings} {board : Board} {store : PlanStore}
  {sinks : List String} {start last : Scheduler}

/-! ## The engine of a scheduler -/

theorem Engages.of_outer {inner : EngineAction} {engine : Engine} {raised : List EngineEvent}
    (hstep : s.engine.step inner = some (engine, raised)) (houter : inner.isInner = false) :
    s.Engages action engine :=
  .acts hstep (by simp [houter])

theorem engages_takeOver (change : Nat) :
    s.Engages action (s.takeOver change).engine := by
  unfold takeOver cancelChange
  simp only
  split
  · exact .rests
  · next c hc =>
      split
      · next preparation hstage =>
          simp only [setChange]
          split
          · next engine raised hcancel =>
              have hstep : s.engine.step (.cancel preparation) = some (engine, raised) := hcancel
              exact .of_outer hstep rfl
          · exact .rests
      · exact .rests

theorem engine_of_run {action : SchedulerAction} (hkind : action.isOfRun = true)
    (taken : s.step action = some (s', events)) :
    ∃ engine board, s.Engages (.act action) engine ∧ s'.engine = { engine with board } := by
  cases action with
  | startRun =>
      obtain ⟨-, ⟨⟩⟩ := startRun_eq_some taken
      exact ⟨_, _, .rests, rfl⟩
  | requestStop =>
      obtain ⟨run, -, ⟨⟩⟩ := requestStop_eq_some taken
      exact ⟨_, _, .rests, rfl⟩
  | tick =>
      obtain ⟨run, -, -, ⟨-, ⟨⟩⟩ | ⟨order, -, ⟨run', name, -, ⟨⟩⟩ | ⟨run', -, ⟨⟩⟩⟩⟩ :=
        tick_eq_some taken <;> exact ⟨_, _, .rests, rfl⟩
  | stopTicking =>
      obtain ⟨run, -, -, -, ⟨⟩⟩ := stopTicking_eq_some taken
      exact ⟨_, _, .rests, rfl⟩
  | startWorker name =>
      obtain ⟨run, -, -, ⟨⟩⟩ := startWorker_eq_some taken
      exact ⟨_, _, .rests, rfl⟩
  | takeOrder name =>
      obtain ⟨run, order, -, -, -, ⟨⟩⟩ := takeOrder_eq_some taken
      have hstep : s.engine.step (.beginCollect order.level) = some (_, []) := rfl
      exact ⟨_, _, .of_outer hstep rfl, rfl⟩
  | delivered name =>
      obtain ⟨run, order, batch, sink, sinks, -, -, ⟨⟩⟩ := delivered_eq_some taken
      obtain ⟨board, hboard⟩ :=
        (keeps_send (s := s) run name (run.worker name) order batch sinks).engine
      exact ⟨_, board, .rests, hboard⟩
  | stopWorker name =>
      obtain ⟨run, -, -, -, -, ⟨⟩⟩ := stopWorker_eq_some taken
      rw [leaving]
      split
      · next order round _ => exact ⟨_, _, .drops round, rfl⟩
      · exact ⟨_, _, .rests, rfl⟩
  | finishRun =>
      obtain ⟨run, -, -, ⟨⟩⟩ := finishRun_eq_some taken
      exact ⟨_, _, .rests, rfl⟩
  | _ => contradiction

theorem engine_of_move (taken : s.move action = some (s', events)) :
    ∃ engine board, s.Engages action engine ∧ s'.engine = { engine with board } := by
  cases action with
  | post line =>
      cases taken
      exact ⟨_, _, .rests, rfl⟩
  | act action =>
      cases hkind : action.isOfRun with
      | true => exact engine_of_run hkind taken
      | false =>
          cases action with
          | engine inner =>
              obtain ⟨-, engine, raised, hstep, hnext⟩ := engineStep_eq_some taken
              obtain ⟨board, hboard⟩ := (keeps_reactAll (s := { s with engine }) raised).engine
              rw [← hnext] at hboard
              exact ⟨engine, board, .acts hstep fun _ => rfl, hboard⟩
          | grant caller =>
              obtain ⟨-, request, -, hcases⟩ := grant_eq_some taken
              obtain ⟨_, _, _, -, -, ⟨⟩⟩ | ⟨_, _, _, _, -, -, -, ⟨⟩⟩ | ⟨change, -, -, -, ⟨⟩⟩ |
                ⟨-, -, ⟨⟩⟩ | ⟨_, -, -, ⟨⟩⟩ | ⟨-, -, ⟨⟩⟩ := hcases
              · exact ⟨_, _, .rests, rfl⟩
              · exact ⟨_, _, .rests, rfl⟩
              · exact ⟨_, _, engages_takeOver change, rfl⟩
              · exact ⟨_, _, .rests, rfl⟩
              · exact ⟨_, _, .rests, rfl⟩
              · exact ⟨_, _, .rests, rfl⟩
          | resume caller =>
              obtain ⟨request, change, -, -, hcases⟩ := resume_eq_some taken
              obtain ⟨_, _, _, -, -, ⟨⟩⟩ | ⟨_, _, _, _, -, -, ⟨⟩⟩ | ⟨-, ⟨⟩⟩ | ⟨-, ⟨⟩⟩ := hcases <;>
                exact ⟨_, _, .rests, rfl⟩
          | beginChange change =>
              obtain ⟨c, -, -, ⟨⟩⟩ := beginChange_eq_some taken
              have hstep : s.engine.step (.beginPrepare c.plan c.cancelled) = some (_, []) := rfl
              exact ⟨_, _, .of_outer hstep rfl, rfl⟩
          | reportChange change =>
              obtain ⟨c, outcome, board, -, -, ⟨⟩⟩ := reportChange_eq_some taken
              exact ⟨_, _, .rests, rfl⟩
          | endChange change =>
              obtain ⟨c, outcome, -, -, ⟨⟩⟩ := endChange_eq_some taken
              exact ⟨_, _, .rests, rfl⟩
          | join =>
              obtain ⟨run, -, -, -, -, ⟨⟩⟩ := join_eq_some taken
              exact ⟨_, _, .rests, rfl⟩
          | call request =>
              obtain ⟨-, ⟨⟩⟩ := call_eq_some taken
              exact ⟨_, _, .rests, rfl⟩
          | dropCaller caller =>
              obtain ⟨asking, -, -, ⟨⟩⟩ := dropCaller_eq_some taken
              exact ⟨_, _, .rests, rfl⟩
          | pause =>
              cases taken
              exact ⟨_, _, .rests, rfl⟩
          | _ => contradiction

/-- Rounds and preparations have their numbers, and nobody has lost or gained a domain. -/
structure Whole (e : Engine) : Prop where
  numbered : e.Numbered
  complete : e.Complete

theorem Whole.withBoard {e : Engine} (h : Whole e) (board : Board) : Whole { e with board } where
  numbered := ⟨h.numbered.preparations, h.numbered.rounds⟩
  complete := ⟨h.complete.live, h.complete.preparations, h.complete.rounds⟩

theorem Whole.dropRound {e : Engine} (h : Whole e) (round : Nat) : Whole (e.dropRound round) where
  numbered := ⟨h.numbered.preparations, fun k r hr =>
    h.numbered.rounds k r (Table.get?_of_get?_erase hr)⟩
  complete := by
    refine ⟨h.complete.live, h.complete.preparations, fun k r hr hopen => ?_⟩
    change (e.rounds.erase round).get? k = some r at hr
    obtain ⟨hplan, htasks⟩ := h.complete.rounds k r (Table.get?_of_get?_erase hr) hopen
    refine ⟨hplan, fun d => ?_⟩
    have hk : k ≠ round := by
      rintro rfl
      simp [Table.get?_erase] at hr
    have htask : (e.dropRound round).task? k d = e.task? k d := by
      simp [Engine.task?, Engine.dropRound, Table.get?_erase, hk]
    rw [htask]
    exact htasks d

theorem Whole.move (h : Whole s.engine) (taken : s.move action = some (s', events)) :
    Whole s'.engine := by
  obtain ⟨engine, board, hengages, hengine⟩ := engine_of_move taken
  rw [hengine]
  refine Whole.withBoard ?_ board
  cases hengages with
  | rests => exact h
  | acts hstep => exact ⟨h.numbered.step hstep, h.complete.step h.numbered hstep⟩
  | drops round => exact h.dropRound round

theorem whole_of_run
    (run : Run Scheduler.move (create settings (.create engine board) store sinks) history last) :
    Whole last.engine := by
  have hcreated : Whole (Engine.create engine board) :=
    ⟨Engine.numbered_create engine board, Engine.complete_create engine board⟩
  induction run with
  | nil => exact hcreated.withBoard _
  | snoc _ taken ih => exact ih.move taken

/-! ## Swaps -/

/-- Nothing but a swap makes another plan live. -/
theorem live_of_move (taken : s.move action = some (s', events)) :
    (∃ id, action = .act (.engine (.swap id .all))) ∧ s'.engine.live.plan.isSome = true ∨
      (∀ id, action ≠ .act (.engine (.swap id .all))) ∧ s'.engine.live = s.engine.live := by
  by_cases hswap : ∃ id, action = .act (.engine (.swap id .all))
  · refine .inl ⟨hswap, ?_⟩
    obtain ⟨id, rfl⟩ := hswap
    have hstep : s.engineStep (.swap id .all) = some (s', events) := taken
    obtain ⟨-, engine, raised, hswap, hnext⟩ := engineStep_eq_some hstep
    obtain ⟨board, hboard⟩ := (keeps_reactAll (s := { s with engine }) raised).engine
    have hswap : s.engine.swap id .all = some (engine, raised) := hswap
    obtain ⟨p, -, -, -, ⟨⟩⟩ := Engine.swap_all_eq_some hswap
    rw [← hnext] at hboard
    rw [hboard]
    rfl
  · push Not at hswap
    refine .inr ⟨hswap, ?_⟩
    obtain ⟨engine, board, hengages, hengine⟩ := engine_of_move taken
    rw [hengine]
    cases hengages with
    | rests => rfl
    | @acts _ engine _ hstep hinner =>
        change engine.live = s.engine.live
        refine Engine.live_of_not_swapped (fun id hid => ?_) hstep
        subst hid
        exact hswap id (hinner rfl)
    | drops => rfl

theorem live_of_not_swap (taken : s.move action = some (s', events))
    (hother : ∀ id, action ≠ .act (.engine (.swap id .all))) : s'.engine.live = s.engine.live := by
  rcases live_of_move taken with ⟨⟨id, hswap⟩, -⟩ | ⟨-, hsame⟩
  · exact absurd hswap (hother id)
  · exact hsame

theorem swappedIn_snoc : SwappedIn (history ++ [y]) ↔
    SwappedIn history ∨ ∃ id, y.action = .act (.engine (.swap id .all)) := by
  simp only [SwappedIn, List.mem_append, List.mem_singleton, or_and_right, exists_or,
    exists_eq_left]

theorem live_of_run (run : Run Scheduler.move start steps last)
    (hnone : ¬ SwappedIn steps) : last.engine.live = start.engine.live := by
  induction run with
  | nil => rfl
  | snoc run taken ih =>
      rw [swappedIn_snoc, not_or] at hnone
      exact (live_of_not_swap taken (not_exists.1 hnone.2)).trans (ih hnone.1)

theorem live_eq_none_iff
    (run : Run Scheduler.move (create settings (.create engine board) store sinks) history last) :
    last.engine.live.plan = none ↔ ¬ SwappedIn history := by
  induction run with
  | nil => simp [SwappedIn, create, say, setStatus, Engine.create, Engine.say]
  | snoc run taken ih =>
      rw [swappedIn_snoc]
      rcases live_of_move taken with ⟨hswap, hsome⟩ | ⟨hother, hlive⟩
      · obtain ⟨plan, hplan⟩ := Option.isSome_iff_exists.1 hsome
        simp [hplan, hswap]
      · rw [hlive, ih]
        simp [hother]

/-! ## Rounds -/

/-- A round keeps its level. -/
theorem level_of_move (taken : s.move action = some (s', events)) {r' : EngineRound}
    (hr' : s'.engine.rounds.get? id = some r') (hold : id < s.engine.nextId) :
    ∃ r, s.engine.rounds.get? id = some r ∧ r'.level = r.level := by
  obtain ⟨engine, board, hengages, hengine⟩ := engine_of_move taken
  rw [hengine] at hr'
  cases hengages with
  | rests => exact ⟨r', hr', rfl⟩
  | drops round => exact ⟨r', Table.get?_of_get?_erase hr', rfl⟩
  | @acts inner _ raised hstep =>
      simp only at hr'
      cases hkind : inner.isOfRound with
      | false =>
          rw [(Engine.preparing_frame hkind hstep).rounds] at hr'
          exact ⟨r', hr', rfl⟩
      | true =>
          have hcollects := Engine.collects_of_step hkind hstep
          generalize Engine.signals raised = signals at hcollects
          cases hcollects with
          | begins _ hnext =>
              rw [hnext, Table.get?_insert, if_neg (Nat.ne_of_lt hold)] at hr'
              exact ⟨r', hr', rfl⟩
          | goesOn _ hr hnext hlevel =>
              rw [hnext, Table.get?_insert] at hr'
              split at hr'
              · next hid =>
                  obtain rfl := Option.some.inj hr'
                  exact ⟨_, hid ▸ hr, hlevel⟩
              · exact ⟨r', hr', rfl⟩
          | collects _ _ hnext =>
              rw [hnext] at hr'
              exact ⟨r', Table.get?_of_get?_erase hr', rfl⟩
          | dropped _ hnext =>
              rw [hnext] at hr'
              exact ⟨r', Table.get?_of_get?_erase hr', rfl⟩

theorem nextId_le_of_move (taken : s.move action = some (s', events)) :
    s.engine.nextId ≤ s'.engine.nextId := by
  obtain ⟨engine, board, hengages, hengine⟩ := engine_of_move taken
  rw [hengine]
  cases hengages with
  | rests => exact Nat.le_refl _
  | @acts _ engine _ hstep =>
      change s.engine.nextId ≤ engine.nextId
      exact Engine.nextId_le_of_step hstep
  | drops => exact Nat.le_refl _

/-- A round that a step begins is the next one, and is for the level of its order. -/
theorem begun_round (taken : y.before.move y.action = some (y.after, y.events))
    {name : WorkerName} {order : Order} (hbegins : begins? y = some (name, order, id)) :
    id < y.after.engine.nextId ∧
      y.after.engine.rounds.get? id = some { level := order.level } := by
  by_cases htakes : ∃ taker, y.action = .act (.takeOrder taker)
  · obtain ⟨taker, haction⟩ := htakes
    rw [haction] at taken
    obtain ⟨run, given, hrun, -, -, hnext⟩ := takeOrder_eq_some taken
    obtain ⟨hafter, -⟩ := Prod.mk.inj hnext
    have hnextId : y.after.engine.nextId = y.before.engine.nextId + 1 := by
      rw [hafter]
      rfl
    have hrounds : y.after.engine.rounds =
        y.before.engine.rounds.insert y.before.engine.nextId { level := given.level } := by
      rw [hafter]
      rfl
    have hcurrent : (y.after.workerOf taker).current = some (given, y.before.engine.nextId) := by
      rw [hafter, workerOf_of_run rfl, SchedulerRun.worker_setWorker_self]
      rfl
    rw [begins?_of_takes haction, hcurrent] at hbegins
    obtain ⟨-, rfl, rfl⟩ : taker = name ∧ given = order ∧ y.before.engine.nextId = id := by
      simpa using hbegins
    rw [hrounds, Table.get?_insert_self]
    exact ⟨by omega, rfl⟩
  · push Not at htakes
    simp [begins?_of_not_takes htakes] at hbegins

theorem level_of_begun (run : Run Scheduler.move start history last)
    {name : WorkerName} {order : Order} (hbegun : (name, order, id) ∈ history.filterMap begins?) :
    id < last.engine.nextId ∧
      ∀ r, last.engine.rounds.get? id = some r → r.level = order.level := by
  induction run with
  | nil => simp at hbegun
  | @snoc history s s' action events run taken ih =>
      rw [List.filterMap_append, List.mem_append] at hbegun
      rcases hbegun with hbegun | hnew
      · obtain ⟨hold, hlevel⟩ := ih hbegun
        refine ⟨Nat.lt_of_lt_of_le hold (nextId_le_of_move taken), fun r' hr' => ?_⟩
        obtain ⟨r, hr, hsame⟩ := level_of_move taken hr' hold
        exact hsame.trans (hlevel r hr)
      · obtain ⟨y, hy, hbegins⟩ := List.mem_filterMap.1 hnew
        obtain rfl := List.mem_singleton.1 hy
        obtain ⟨hlt, hround⟩ := begun_round (y := ⟨s, action, s', events⟩) taken hbegins
        refine ⟨hlt, fun r hr => ?_⟩
        obtain rfl := Option.some.inj (hround.symm.trans hr)
        rfl

/-- Whatever can be handed out when scheduler and engine agree is a level of the live plan. -/
theorem Agrees.offers (h : s.Agrees) (complete : s.engine.live.Complete) {tick : Nat}
    {order : Order} (horder : s.orderAt tick = some order) :
    s.engine.live.Offers order.plan order.level := by
  obtain ⟨-, level, state, hdue, hstate, rfl⟩ := orderAt_eq_some horder
  cases h with
  | nothing _ hempty => simp [hempty] at hstate
  | @scheduled plan _ hplan hname hlevels _ =>
      have hmem : level ∈ s.active.levels :=
        List.mem_reverse.1 (List.mem_of_find?_eq_some hdue)
      obtain ⟨l, hl, rfl⟩ := List.mem_map.1 (hlevels.all.mem_iff.1 hmem)
      rw [hname]
      exact complete.offers hplan hl

theorem order_of_handed (taken : s.move action = some (s', events)) {name : WorkerName}
    {order : Order} (handed : .handed name order ∈ events) :
    action = .act .tick ∧ ∃ tick, s.orderAt tick = some order := by
  cases action with
  | post line =>
      cases taken
      simp at handed
  | act action =>
      obtain ⟨rfl, run, -, horder⟩ := handed_of_step taken handed
      exact ⟨rfl, _, horder⟩

theorem mem_react {event first : EngineEvent} :
    .engine event ∈ (s.react first).2 ↔ event = first := by
  cases first with
  | after preparation =>
      simp only [react, activate]
      split <;> simp
  | prepared preparation outcome =>
      simp only [react, preparationEnded]
      split
      · simp
      · split <;> simp
  | _ => simp [react]

/-- What the engine tells the scheduler is told by the scheduler as well. -/
theorem mem_reactAll {raised : List EngineEvent} {event : EngineEvent} :
    .engine event ∈ (s.reactAll raised).2 ↔ event ∈ raised := by
  induction raised generalizing s with
  | nil => simp [reactAll]
  | cons first rest ih => simp only [reactAll, List.mem_append, mem_react, ih, List.mem_cons]

/-- A round that gets at the live state has a task for each domain of its level there.  It is over
at once, with nothing in its batch, just if there is none. -/
theorem tasks_of_enter (taken : y.before.move y.action = some (y.after, y.events)) {now : Utc}
    (haction : y.action = .act (.engine (.enter id now)))
    (complete : y.before.engine.live.Complete) {level : String}
    (hlevel : ∀ r, y.before.engine.rounds.get? id = some r → r.level = level) :
    (∀ d, (y.after.engine.task? id d).isSome = true ↔ d ∈ y.before.engine.live.asked level) ∧
      ((∃ batch, .engine (.collected id batch) ∈ y.events ∧ batch.values = ∅ ∧ batch.errors = ∅) ↔
        ∀ d, d ∉ y.before.engine.live.asked level) := by
  rw [haction] at taken
  have hstep : y.before.engineStep (.enter id now) = some (y.after, y.events) := taken
  obtain ⟨-, engine, raised, henter, hnext⟩ := engineStep_eq_some hstep
  obtain ⟨board, hboard⟩ :=
    (keeps_reactAll (s := { y.before with engine }) raised).engine
  have henter : y.before.engine.enter id now = some (engine, raised) := henter
  obtain ⟨r, hr, htasks, hover⟩ := Engine.tasks_of_enter complete henter
  obtain ⟨hafter, hevents⟩ := Prod.mk.inj hnext
  rw [← hafter] at hboard
  rw [hboard, hevents, ← hlevel r hr]
  simp only [mem_reactAll]
  exact ⟨htasks, hover⟩

/-! ## Runs -/

/-- Whatever a tick hands out is a level of the live plan. -/
theorem offers_of_handed
    (run : Run Scheduler.move (create settings (.create engine board) store sinks) history last)
    (calm : ∀ y ∈ history, y.before.Orderly ∨ Prompt y) (hy : y ∈ history) {name : WorkerName}
    {order : Order} (handed : .handed name order ∈ y.events) :
    y.before.engine.live.Offers order.plan order.level := by
  have hsettled := fun taken => settled_of_handed (calm y hy) taken handed
  obtain ⟨earlier, later, rfl⟩ := List.append_of_mem hy
  obtain ⟨before, taken, -⟩ := run.taken
  have aligned := aligned_of_run before fun x hx => calm x (List.mem_append_left _ hx)
  obtain ⟨-, tick, horder⟩ := order_of_handed taken handed
  exact (aligned.settled (hsettled taken)).offers (whole_of_run before).complete.live horder

section Rounds

variable {earlier between later : History} {z : Step Scheduler Move SchedulerEvent}

/-- Until another plan is swapped in, the live plan has the level that was handed out. -/
theorem offers_until_swap
    (run : Run Scheduler.move (create settings (.create engine board) store sinks)
      (earlier ++ y :: between) last)
    (calm : ∀ x ∈ earlier ++ y :: between, x.before.Orderly ∨ Prompt x) {name : WorkerName}
    {order : Order} (handed : .handed name order ∈ y.events) (hnone : ¬ SwappedIn between) :
    last.engine.live.Offers order.plan order.level := by
  have hoffers := offers_of_handed run calm (by simp) handed
  obtain ⟨-, handing, following⟩ := run.taken
  -- the tick that hands the order out swaps nothing in
  obtain ⟨htick, -⟩ := order_of_handed handing handed
  rw [live_of_run following hnone, live_of_not_swap handing (by simp [htick])]
  exact hoffers

/-- The round of an order that step `y` hands out gets at the live state in step `z`. -/
structure Enters (y : Step Scheduler Move SchedulerEvent) (between : History)
    (z : Step Scheduler Move SchedulerEvent) (order : Order) (id : Nat) : Prop where
  /-- It gets a task for each domain of its level in the plan that is live by then. -/
  tasks : ∀ d, (z.after.engine.task? id d).isSome = true ↔
    d ∈ z.before.engine.live.asked order.level
  /-- It is over at once, with nothing in its batch, just if there is no such domain. -/
  silent : (∃ batch, .engine (.collected id batch) ∈ z.events ∧
      batch.values = ∅ ∧ batch.errors = ∅) ↔
    ∀ d, d ∉ z.before.engine.live.asked order.level
  /-- Unless another plan is swapped in first, the live plan is that of the order, has its level
  and asks for the same domains as when the order was handed out. -/
  undisturbed : ¬ SwappedIn between → z.before.engine.live.Offers order.plan order.level ∧
    z.before.engine.live.asked order.level = y.before.engine.live.asked order.level
  /-- So the level is unknown only to a plan that was swapped in after the order was handed out. -/
  unknown : z.before.engine.live.plan.bind (·.levelNamed? order.level) = none → SwappedIn between

theorem enters_of_run
    (run : Run Scheduler.move (create settings (.create engine board) store sinks)
      (earlier ++ y :: between ++ z :: later) last)
    (calm : ∀ x ∈ earlier ++ y :: between ++ z :: later, x.before.Orderly ∨ Prompt x)
    {name : WorkerName} {order : Order} {now : Utc} (handed : .handed name order ∈ y.events)
    (begun : (name, order, id) ∈ between.filterMap begins?)
    (haction : z.action = .act (.engine (.enter id now))) : Enters y between z order id := by
  obtain ⟨run, entering, -⟩ := run.taken
  obtain ⟨-, handing, following⟩ := run.taken
  obtain ⟨htasks, hsilent⟩ := tasks_of_enter entering haction (whole_of_run run).complete.live
    (level_of_begun following begun).2
  have hoffers := offers_until_swap run (fun x hx => calm x (List.mem_append_left _ hx)) handed
  refine ⟨htasks, hsilent, fun hnone => ⟨hoffers hnone, ?_⟩, fun hunknown => ?_⟩
  · obtain ⟨htick, -⟩ := order_of_handed handing handed
    rw [live_of_run following hnone, live_of_not_swap handing (by simp [htick])]
  · by_contra hnone
    simpa [hunknown] using (hoffers hnone).known

/-- Nothing comes of a change that fails or is abandoned. -/
theorem spared_of_run {x : Step Scheduler Move SchedulerEvent}
    (run : Run Scheduler.move (create settings (.create engine board) store sinks)
      (earlier ++ x :: between ++ [z]) last)
    {a : Acceptance} {outcome : PrepareOutcome} (accepted : acceptance? x = some a)
    (ended : .changeEnded a.change outcome ∈ z.events) (houtcome : outcome ≠ .ready)
    (hnone : ∀ change, .activated change ∉ z.events) :
    (∃ k, k ≠ a.change ∧ Activated between k ∧ ∃ y ∈ earlier ++ x :: between ++ [z], ¬ Stays y) ∨
      last.active = x.before.active ∧
        (last.paused = true ↔
          x.before.paused = true ∨ ∃ y ∈ between, y.action = .act .pause) := by
  have hsplit : earlier ++ x :: between ++ [z] = earlier ++ x :: (between ++ [z]) := by simp
  obtain ⟨before, accepting, following⟩ := (hsplit ▸ run).taken
  have hx := linked_of_run (linked_create settings engine board store sinks) before
  by_cases hactivated : ∃ k, Activated between k
  · obtain ⟨k, hk⟩ := hactivated
    have hne : k ≠ a.change := by
      rintro rfl
      exact not_activated_of_ended (hx.move accepting) following ended houtcome (hnone _) hk
    refine .inl ⟨k, hne, hk, ?_⟩
    by_contra hstays
    push Not at hstays
    exact hne (eq_of_activated run hstays accepted ended hk)
  · exact .inr (unchanged_of_accepted (Run.cons accepting following) accepted ended
      (not_exists.1 hactivated) hnone)

end Rounds

/-- Scheduler and engine have the same plan, whatever else goes on. -/
structure InAgreement (history : History) (last : Scheduler) : Prop where
  /-- Once no change is in flight they agree, on nothing just as long as no plan was swapped in. -/
  idle : (∀ change, ¬ last.InFlight change) →
    last.Agrees ∧ (last.engine.live.plan = none ↔ ¬ SwappedIn history)
  due : (∀ change, ¬ last.InFlight change) → ∀ tick order, last.orderAt tick = some order →
    last.engine.live.Offers order.plan order.level
  handed : ∀ y ∈ history, ∀ name order, .handed name order ∈ y.events →
    y.before.engine.live.Offers order.plan order.level
  entered : ∀ earlier y between z later name order id now,
    history = earlier ++ y :: between ++ z :: later → .handed name order ∈ y.events →
    (name, order, id) ∈ between.filterMap begins? → z.action = .act (.engine (.enter id now)) →
    Enters y between z order id
  rounds : ∀ id r, last.engine.rounds.get? id = some r → r.stage.isQueued = false →
    last.engine.Covers id r
  /-- A change that fails or is abandoned leaves everything as it was, unless somebody who has
  given up a wait lets another change be activated meanwhile. -/
  spared : ∀ earlier x between z a outcome, history = earlier ++ x :: between ++ [z] →
    acceptance? x = some a → .changeEnded a.change outcome ∈ z.events → outcome ≠ .ready →
    (∀ change, .activated change ∉ z.events) →
    (∃ k, k ≠ a.change ∧ Activated between k ∧ ∃ y ∈ history, ¬ Stays y) ∨
      last.active = x.before.active ∧
        (last.paused = true ↔ x.before.paused = true ∨ ∃ y ∈ between, y.action = .act .pause)

theorem in_agreement_with_engine
    (run : Run move (create settings (.create engine board) store sinks) history last)
    (coordinated : Coordinated history) : InAgreement history last := by
  have calm : ∀ y ∈ history, y.before.Orderly ∨ Prompt y := fun y hy => coordinated.calm run hy
  have aligned := aligned_of_run run calm
  have whole := whole_of_run run
  have linked := linked_of_run (linked_create settings engine board store sinks) run
  refine ⟨fun idle => ⟨aligned.settled (linked.settled idle), live_eq_none_iff run⟩,
    fun idle tick order horder => ?_, fun y hy name order => offers_of_handed run calm hy, ?_,
    whole.complete.rounds, ?_⟩
  · exact (aligned.settled (linked.settled idle)).offers whole.complete.live horder
  · intro earlier y between z later name order id now hhistory hhanded hbegun haction
    subst hhistory
    exact enters_of_run run calm hhanded hbegun haction
  · intro earlier x between z a outcome hhistory haccepted hended houtcome hnone
    subst hhistory
    exact spared_of_run run haccepted hended houtcome hnone

/-- A round is collected, there is a pause, and a second change fails. -/
def failing : List Move :=
  supersededAfter (allPrepared ++ [.swap 0 .all, .cleanUp 0 none, .prune 0]) ++
    [.act (.reportChange 1), .act (.endChange 1), .act .startRun, .act (.startWorker .primary),
      .act .tick, .act (.takeOrder .primary), .act (.engine (.enter 1 default)), .act (.resume 2),
      .act .pause, .act (.beginChange 3), .act (.engine (.pinged 2 .answered)),
      .act (.engine (.copyLive 2)), .act (.engine (.visit 2 .created false)),
      .act (.engine (.collectorPrepared 2 (.failed ["no access"]))), .act (.reportChange 3),
      .act (.endChange 3)]

def failingRun : History × Scheduler :=
  Run.follow move (create {} (.create {} ∅) oneDomain []) failing

theorem in_agreement_with_engine_failing :
    (∃ y ∈ failingRun.1,
        .changeEnded 3 (.failed ["preparing cpu collector", "no access"]) ∈ y.events) ∧
      failingRun.2.paused = true ∧ failingRun.2.active.state = some .active ∧
      Coordinated failingRun.1 ∧ InAgreement failingRun.1 failingRun.2 ∧ failingRun.2.Agrees ∧
      ∀ d, (failingRun.2.engine.task? 1 d).isSome = true ↔ d = "cpu" := by
  have hrun : Run move (create {} (.create {} ∅) oneDomain []) failingRun.1 failingRun.2 :=
    Run.of_follow ..
  have hstays : Coordinated failingRun.1 := .inl (stays_of_none_dropped (by decide +kernel))
  have hover : ∀ e ∈ failingRun.2.changes.toList, e.2.stage = .ended := by decide +kernel
  have hround : (failingRun.2.engine.rounds.get? 1).map (fun r => (r.stage.isQueued, r.level)) =
      some (false, "kpi") := by decide +kernel
  have hasked : (failingRun.2.engine.live.asked "kpi").keys = ["cpu"] := by decide +kernel
  have agreement := in_agreement_with_engine hrun hstays
  obtain ⟨r, hr, hround⟩ := Option.map_eq_some_iff.1 hround
  obtain ⟨hopen, hlevel⟩ := Prod.mk.inj hround
  refine ⟨by decide +kernel, by decide +kernel, by decide +kernel, hstays, agreement,
    (agreement.idle ?_).1, fun d => ?_⟩
  · rintro change ⟨c, hc, hopen⟩
    exact hopen (hover (change, c) (Table.get?_eq_some_iff.1 hc))
  · rw [(agreement.rounds 1 r hr hopen).2 d, hlevel, ← Table.mem_keys, hasked,
      List.mem_singleton]

/-- The first plan is live, and a tick hands its level out. -/
def handedOut : List Move :=
  [.act (.call (.change .active "p")), .act (.grant 0), .act (.beginChange 1)] ++
    (allPrepared ++ [.swap 0 .all, .cleanUp 0 none, .prune 0] : List EngineAction).map
      (.act ∘ .engine) ++
    [.act (.reportChange 1), .act (.endChange 1), .act .startRun, .act (.startWorker .primary),
      .act .tick]

/-- The second plan takes the place of the first. -/
def replaced : List Move :=
  [.act (.call (.change .standby "q")), .act (.grant 2), .act (.resume 2), .act (.beginChange 3)] ++
    ([.pinged 1 .answered, .copyLive 1, .visit 1 .created false,
      .collectorPrepared 1 (.prepared false), .conclude 1, .swap 1 .all, .cleanUp 1 none,
      .prune 1] : List EngineAction).map (.act ∘ .engine) ++
    [.act (.reportChange 3), .act (.endChange 3)]

/-- Another plan, with a level of another name. -/
def otherLevel : PlanStore :=
  oneDomain.add (.ofLevels "q" "inline" (.ofList [
    ("status", { freq := "1s", collect := .ofList [("cpu", {})] })]))

def overtakenRun : History × Scheduler :=
  Run.follow move (create {} (.create {} ∅) otherLevel [])
    (handedOut ++ replaced ++ [.act (.takeOrder .primary), .act (.engine (.enter 2 default))])

/-- The order waits in front of the worker while a plan without its level is swapped in: its round
has nothing to collect and is over without a word. -/
theorem unknown_to_plan_swapped_in :
    Run move (create {} (.create {} ∅) otherLevel []) overtakenRun.1 overtakenRun.2 ∧
      Coordinated overtakenRun.1 ∧
      ∃ y ∈ overtakenRun.1, ∃ z ∈ overtakenRun.1, ∃ order,
        (.handed .primary order ∈ y.events ∧
          (y.before.engine.live.asked order.level).keys = ["cpu"]) ∧
        (.primary, order, 2) ∈ overtakenRun.1.filterMap begins? ∧
        z.action = .act (.engine (.enter 2 default)) ∧
        z.before.engine.live.plan.bind (·.levelNamed? order.level) = none ∧
        ∃ batch, .engine (.collected 2 batch) ∈ z.events ∧
          batch.values = ∅ ∧ batch.errors = ∅ := by
  have hhanded : ∃ y ∈ overtakenRun.1,
      .handed .primary ⟨1, "kpi", "p", .active⟩ ∈ y.events ∧
        (y.before.engine.live.asked "kpi").keys = ["cpu"] := by decide +kernel
  have hentered : ∃ z ∈ overtakenRun.1, z.action = .act (.engine (.enter 2 default)) ∧
      z.before.engine.live.plan.bind (·.levelNamed? "kpi") = none ∧
      .engine (.collected 2 (z.before.engine.emptyBatch "kpi" default)) ∈ z.events := by
    decide +kernel
  obtain ⟨y, hy, hhanded⟩ := hhanded
  obtain ⟨z, hz, haction, hunknown, hcollected⟩ := hentered
  exact ⟨Run.of_follow .., .inl (stays_of_none_dropped (by decide +kernel)), y, hy, z, hz, _,
    hhanded, by decide +kernel, haction, hunknown, _, hcollected, rfl, rfl⟩

end Cadence.Scheduler
