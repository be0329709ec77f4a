import Cadence.Proofs.Monitor.Stopping
import Cadence.Proofs.Scheduler.Turns

/-!
# What a monitor has its scheduler do

Each step of a monitor is a few moves of its scheduler, so a run of the monitor
is one of the scheduler.  In it nobody gives up a change of plan, because the
monitor waits for the calls that it makes, and nobody else calls for a change.
-/

namespace Cadence.Monitor

/-- The scheduler gets from one state to the other without a word, and pauses only if this holds. -/
def Glides (halts : Prop) (s s' : Scheduler) : Prop :=
  ∃ moves, Run Scheduler.move s moves s' ∧ ∀ z ∈ moves, z.events = [] ∧
    Scheduler.dropsCaller z.action = false ∧ (z.action = .act .pause → halts)

section Glides

variable {s s' s'' : Scheduler} {halts halts' : Prop}

theorem Glides.refl (s : Scheduler) : Glides halts s s := ⟨[], .nil, by simp⟩

theorem Glides.trans (h : Glides halts s s') (h' : Glides halts s' s'') : Glides halts s s'' := by
  obtain ⟨moves, run, quiet⟩ := h
  obtain ⟨more, run', quiet'⟩ := h'
  exact ⟨moves ++ more, run.append run', fun z hz =>
    (List.mem_append.1 hz).elim (quiet z) (quiet' z)⟩

theorem Glides.mono (h : Glides halts s s') (himp : halts → halts') : Glides halts' s s' := by
  obtain ⟨moves, run, quiet⟩ := h
  exact ⟨moves, run, fun z hz => ⟨(quiet z hz).1, (quiet z hz).2.1, fun h => himp ((quiet z hz).2.2 h)⟩⟩

theorem Glides.of_move (move : Move) (taken : s.move move = some (s', []))
    (hdrop : Scheduler.dropsCaller move = false) (hpause : move = .act .pause → halts) :
    Glides halts s s' := by
  refine ⟨[⟨s, move, s', []⟩], Run.nil.snoc taken, fun z hz => ?_⟩
  obtain rfl := List.mem_singleton.1 hz
  exact ⟨rfl, hdrop, hpause⟩

end Glides

variable {m m' : Monitor} {events : List SchedulerEvent} {halts : Prop}

theorem glides_stopScheduler : Glides halts m.scheduler m.stopScheduler.scheduler := by
  unfold stopScheduler
  split
  · next s events h =>
      obtain ⟨run, -, hnext⟩ := Scheduler.requestStop_eq_some h
      obtain ⟨-, rfl⟩ := Prod.mk.inj hnext
      exact .of_move (.act .requestStop) h rfl (by simp)
  · exact .refl _

theorem glides_returned (caller : Nat) (result : Except PlanError Unit) :
    Glides halts m.scheduler (m.returned caller result).scheduler := by
  have hanswered : ∀ answered : Monitor,
      answered = (if m.attempt = some (.pending caller) then
        { m with attempt := some (.answered result.isOk) } else m) →
      answered.scheduler = m.scheduler := by
    rintro _ rfl
    split <;> rfl
  unfold returned
  extract_lets answered
  rw [← hanswered answered rfl]
  split
  · split
    · split
      · exact .refl _
      · exact answered.glides_stopScheduler
    · exact .refl _
  · exact .refl _

theorem glides_foldl_react (events : List SchedulerEvent) :
    Glides halts m.scheduler (events.foldl react m).scheduler := by
  induction events generalizing m with
  | nil => exact .refl _
  | cons event rest ih =>
      rw [List.foldl_cons]
      refine Glides.trans ?_ ih
      cases event with
      | returned caller result => exact m.glides_returned caller result
      | _ => exact .refl _

theorem glides_publish : Glides halts m.scheduler m.publish.scheduler := by
  unfold publish
  split
  · exact .refl _
  · exact .of_move (.post _) rfl rfl (by simp)

/-- The adjuster has had collection stopped. -/
def Halts (m : Monitor) : Prop :=
  m.attempt = some (.answered true) ∧
    ∃ a x now, m.adjuster = some a ∧ a.stage = .attempting x now ∧ x.plan = ""

theorem glides_adjust {action : AdjusterAction} (h : m.adjust action = some (m', events)) :
    events = [] ∧ Glides (∃ a a' x, m.adjuster = some a ∧ a.step action = some (a', some x) ∧
      x.pauses = true) m.scheduler m'.scheduler := by
  obtain ⟨a, ha, h⟩ := Option.bind_eq_some_iff.1 h
  obtain ⟨⟨a', attempt⟩, hstep, hnext⟩ := Option.map_eq_some_iff.1 h
  obtain ⟨rfl, rfl⟩ := Prod.mk.inj hnext
  have hline : ∀ {halts}, Glides halts m.scheduler
      ({ m with adjuster := some a' } : Monitor).publish.scheduler :=
    ({ m with adjuster := some a' } : Monitor).glides_publish
  refine ⟨rfl, ?_⟩
  cases attempt with
  | none => exact hline
  | some x =>
      cases hpauses : x.pauses with
      | true =>
          simp only [make, Attempt.call, hpauses, if_true]
          exact hline.trans (.of_move (.act .pause) rfl rfl fun _ => ⟨a, a', x, ha, hstep, hpauses⟩)
      | false =>
          simp only [make, Attempt.call, hpauses, Bool.false_eq_true, if_false]
          exact hline.trans (.of_move (.act (.call (.change x.state x.plan)))
            (by simp [Scheduler.move, Scheduler.step]) rfl (by simp))

/-- Where nothing is observed no attempt is made, and nothing is paused. -/
theorem glides_adjust_of_not_observed {action : AdjusterAction}
    (hobserved : ∀ a a' x, Adjuster.step a action ≠ some (a', some x))
    (h : m.adjust action = some (m', events)) :
    events = [] ∧ Glides halts m.scheduler m'.scheduler := by
  obtain ⟨hevents, hglides⟩ := glides_adjust h
  refine ⟨hevents, hglides.mono ?_⟩
  rintro ⟨a, a', x, -, hstep, -⟩
  exact absurd hstep (hobserved a a' x)

theorem eq_of_pauses {y : Step Monitor MonitorAction SchedulerEvent}
    (taken : y.before.step y.action = some (y.after, y.events)) (h : Pauses y) :
    ∃ a x now, a.stage = .attempting x now ∧ x.pauses = true ∧
      y.after = ({ y.before with adjuster := some a } : Monitor).publish.make x := by
  obtain ⟨a, a', act, x, ha, haction, hstep, hpauses⟩ := h
  obtain ⟨-, ⟨⟨⟩, -⟩ | ⟨_, now, ⟨⟩, -, hstage, -⟩ | ⟨_, _, _, _, -, ⟨⟩, -⟩⟩ :=
    Adjuster.step_cases hstep
  refine ⟨a', x, now, hstage, hpauses, ?_⟩
  rw [haction] at taken
  rcases Adjuster.observes_of_attempt hstep with ⟨now, date, rfl⟩ | ⟨state, now, date, rfl⟩
  · change y.before.adjust (.take now date) = some (y.after, y.events) at taken
    rw [adjust, ha, Option.bind_some, hstep, Option.map_some] at taken
    exact (congrArg Prod.fst (Option.some.inj taken)).symm
  · contradiction

theorem halts_of_pauses {y : Step Monitor MonitorAction SchedulerEvent}
    (taken : y.before.step y.action = some (y.after, y.events)) (h : Pauses y) : y.after.Halts := by
  obtain ⟨a, x, now, hstage, hpauses, hafter⟩ := eq_of_pauses taken h
  have hplan : x.plan = "" := by simpa [Attempt.pauses] using hpauses
  rw [hafter]
  simp only [make, Attempt.call, hpauses, if_true]
  exact ⟨rfl, a, x, now, publish_adjuster, hstage, hplan⟩

/-- Moves by which a step of a monitor is one of its scheduler. -/
structure Moves (y : Step Monitor MonitorAction SchedulerEvent) (moves : Scheduler.History) :
    Prop where
  run : Run Scheduler.move y.before.scheduler moves y.after.scheduler
  events : moves.flatMap (·.events) = y.events
  /-- What is said at all is said by an action of the scheduler itself. -/
  own : ∀ z ∈ moves,
    (∃ act, y.action = .scheduler act ∧ y.before.allows act = true ∧ z.action = .act act ∧
      z.before = y.before.scheduler ∧ z.events = y.events) ∨
    z.events = [] ∧ Scheduler.dropsCaller z.action = false
  pauses : ∀ z ∈ moves, z.action = .act .pause → y.after.Halts

theorem Glides.moves {y : Step Monitor MonitorAction SchedulerEvent}
    (h : Glides y.after.Halts y.before.scheduler y.after.scheduler) (hevents : y.events = []) :
    ∃ moves, Moves y moves := by
  obtain ⟨moves, run, quiet⟩ := h
  refine ⟨moves, run, ?_, fun z hz => .inr ⟨(quiet z hz).1, (quiet z hz).2.1⟩,
    fun z hz => (quiet z hz).2.2⟩
  rw [hevents, List.flatMap_eq_nil_iff]
  exact fun z hz => (quiet z hz).1

theorem moves_of_scheduler {y : Step Monitor MonitorAction SchedulerEvent} {act : SchedulerAction}
    (haction : y.action = .scheduler act) (hallows : y.before.allows act = true) {s : Scheduler}
    (taken : y.before.scheduler.step act = some (s, y.events))
    (hafter : y.after = y.events.foldl react { y.before with scheduler := s }) :
    ∃ later, Moves y (⟨y.before.scheduler, .act act, s, y.events⟩ :: later) ∧
      ∀ z ∈ later, z.events = [] ∧ z.action ≠ .act .pause := by
  have hglides : Glides False s (y.events.foldl react { y.before with scheduler := s }).scheduler :=
    ({ y.before with scheduler := s } : Monitor).glides_foldl_react y.events
  obtain ⟨later, following, quiet⟩ := hglides
  rw [← hafter] at following
  have hpause : act ≠ .pause := by
    rintro rfl
    simp [allows] at hallows
  have hsilent : later.flatMap (·.events) = [] :=
    List.flatMap_eq_nil_iff.2 fun z hz => (quiet z hz).1
  refine ⟨later, ⟨Run.cons (x := ⟨_, _, _, _⟩) taken following, by simp [hsilent], fun z hz => ?_,
    fun z hz hzpause => ?_⟩, fun z hz => ⟨(quiet z hz).1, (quiet z hz).2.2⟩⟩
  · rcases List.mem_cons.1 hz with rfl | hz
    · exact .inl ⟨act, haction, hallows, rfl, rfl, rfl⟩
    · exact .inr ⟨(quiet z hz).1, (quiet z hz).2.1⟩
  · rcases List.mem_cons.1 hz with rfl | hz
    · exact absurd (Move.act.inj hzpause) hpause
    · exact ((quiet z hz).2.2 hzpause).elim

/-- Whatever is not an action of the scheduler goes on without a word. -/
theorem glides_of_step {action : MonitorAction} (taken : m.step action = some (m', events))
    (hother : ∀ act, action ≠ .scheduler act) :
    events = [] ∧ Glides (Pauses ⟨m, action, m', events⟩) m.scheduler m'.scheduler := by
  have starts {halts : Prop} (hover : m.scheduler.run = none) :
      Glides halts m.scheduler { m.scheduler with run := some {} } :=
    .of_move (.act .startRun) (by simp [Scheduler.move, Scheduler.step, Scheduler.startRun, hover]) rfl
      (by simp)
  cases acts_of_step taken with
  | works => exact absurd rfl (hother _)
  | @adjusts act _ hadjust =>
      obtain ⟨hevents, hglides⟩ := glides_adjust hadjust
      refine ⟨hevents, hglides.mono ?_⟩
      rintro ⟨a, a', x, ha, hstep, hpauses⟩
      exact ⟨a, a', act, x, ha, rfl, hstep, hpauses⟩
  | activates _ hover _ hevents hnext =>
      subst hnext
      exact ⟨hevents, (starts hover).trans (.of_move (.act (.call (.change .active m.plan)))
        (by simp [Scheduler.move, Scheduler.step]) rfl (by simp))⟩
  | observes _ hover _ _ hevents hnext =>
      subst hnext
      exact ⟨hevents, starts hover⟩
  | stops _ hevents hnext =>
      subst hnext
      exact ⟨hevents, m.glides_stopScheduler⟩
  | settles _ hadjust =>
      refine glides_adjust_of_not_observed (m := { m with attempt := none }) (fun a a' x hstep => ?_)
        hadjust
      simpa using Adjuster.observes_of_attempt hstep
  | leaves _ hevents hnext =>
      subst hnext
      exact ⟨hevents, m.glides_stopScheduler⟩
  | @dismisses n _ hadjust hnext =>
      subst hnext
      obtain ⟨hevents, hglides⟩ := glides_adjust_of_not_observed
        (fun a a' x hstep => by simpa using Adjuster.observes_of_attempt hstep) hadjust
      exact ⟨hevents, hglides.trans n.glides_stopScheduler⟩
  | finishes _ _ hevents hnext =>
      subst hnext
      exact ⟨hevents, .refl _⟩

/-- A step of a monitor is an action of the scheduler, or says nothing. -/
theorem moves_of_step {y : Step Monitor MonitorAction SchedulerEvent}
    (taken : y.before.step y.action = some (y.after, y.events)) : ∃ moves, Moves y moves := by
  by_cases hkind : ∃ act, y.action = .scheduler act
  · obtain ⟨act, haction⟩ := hkind
    rw [haction] at taken
    obtain ⟨s, hallows, hstep, hafter⟩ := scheduler_eq_some taken
    obtain ⟨later, hmoves, -⟩ := moves_of_scheduler haction hallows hstep hafter
    exact ⟨_, hmoves⟩
  · obtain ⟨hevents, hglides⟩ := glides_of_step taken (not_exists.1 hkind)
    exact Glides.moves (hglides.mono (halts_of_pauses taken)) hevents

/-! ## Runs -/

/-- The moves that a history of the monitor comes to for its scheduler. -/
structure Lifted (start : Scheduler) (history : History) (m : Monitor)
    (moves : Scheduler.History) : Prop where
  run : Run Scheduler.move start moves m.scheduler
  stays : ∀ z ∈ moves, Scheduler.Stays z
  events : moves.flatMap (·.events) = history.flatMap (·.events)
  origin : ∀ z ∈ moves, z.events ≠ [] →
    ∃ x ∈ history, x.before.scheduler = z.before ∧ x.events = z.events

/-- The monitor waits for every call for a change of plan. -/
def OwnsCalls (m : Monitor) : Prop :=
  ∀ caller, Scheduler.Waits m.scheduler caller → m.owns caller = true

theorem Attuned.ownsCalls {a : Adjuster} (h : Attuned m a) : m.OwnsCalls := by
  intro caller hwaits
  simp [owns, h.waits caller hwaits]

theorem stays_of_allows {z : Step Scheduler Move SchedulerEvent} {act : SchedulerAction}
    (owned : m.OwnsCalls) (hallows : m.allows act = true)
    (haction : z.action = .act act) (hbefore : z.before = m.scheduler) : Scheduler.Stays z := by
  intro caller state name earlier hcaller hdrop
  rw [hbefore] at hcaller
  rw [haction] at hdrop
  obtain rfl := Move.act.inj hdrop
  have hown := owned caller ⟨_, state, name, hcaller, rfl⟩
  simp [allows, hown] at hallows

theorem Lifted.snoc {start : Scheduler} {history : History}
    {y : Step Monitor MonitorAction SchedulerEvent} {moves part : Scheduler.History}
    (h : Lifted start history y.before moves) (owned : y.before.OwnsCalls)
    (hpart : Moves y part) : Lifted start (history ++ [y]) y.after (moves ++ part) := by
  refine ⟨h.run.append hpart.run, fun z hz => ?_, ?_, fun z hz hsome => ?_⟩
  · rcases List.mem_append.1 hz with hz | hz
    · exact h.stays z hz
    · rcases hpart.own z hz with ⟨act, -, hallows, haction, hbefore, -⟩ | ⟨-, hdrop⟩
      · exact stays_of_allows owned hallows haction hbefore
      · intro caller state name earlier _ haction
        simp [haction, Scheduler.dropsCaller] at hdrop
  · simp [List.flatMap_append, h.events, hpart.events]
  · rcases List.mem_append.1 hz with hz | hz
    · obtain ⟨x, hx, hsame⟩ := h.origin z hz hsome
      exact ⟨x, List.mem_append_left _ hx, hsame⟩
    · rcases hpart.own z hz with ⟨act, -, -, -, hbefore, hevents⟩ | ⟨hnone, -⟩
      · exact ⟨y, by simp, hbefore.symm, hevents.symm⟩
      · exact absurd hnone hsome

end Cadence.Monitor
