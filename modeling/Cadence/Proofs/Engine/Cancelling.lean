import Cadence.Proofs.Engine.Consistency
import Cadence.Proofs.Engine.Signals
import Cadence.Proofs.Run

/-!
# Preparations that are cancelled

A preparation looks for the last time whether it is cancelled when all its
collectors have prepared.  If it is cancelled by then, it never goes live and
leaves no trace in the live state.  From there on nothing but a panic keeps it
from going live.
-/

namespace Cadence

/-- Whether a collector that cannot be made or cannot prepare ends the preparation. -/
def EngineAction.fails : EngineAction → Bool
  | visit _ creation _ => creation ≠ .created
  | collectorPrepared _ (.prepared _) => false
  | collectorPrepared .. => true
  | _ => false

namespace Engine

/-- The preparation is cancelled in time, or over. -/
def Abandoned (id : Nat) (e : Engine) : Prop :=
  id < e.nextId ∧ ∀ p, e.preparations.get? id = some p →
    p.cancelled = true ∧ p.stage.isConcluded = false

/-- The preparation has looked for the last time whether it is cancelled, or is over. -/
def Concluded (id : Nat) (e : Engine) : Prop :=
  id < e.nextId ∧ ∀ p, e.preparations.get? id = some p → p.stage.isConcluded = true

/-- The step has nothing of the preparation go live: neither hook runs, what is live stays, unless
another preparation replaces it, and should the preparation end, it is not by a failure of its own
unless a collector fails. -/
structure Spares (id : Nat) (y : Step Engine EngineAction EngineEvent) : Prop where
  live : (∃ other commits, other ≠ id ∧ y.action = .swap other commits) ∨
    y.after.live = y.before.live ∧ (∀ c, (y.after.selection c).live = (y.before.selection c).live) ∧
      ∀ domain c, .committing domain c ∉ y.events
  before : .before id ∉ y.events
  after : .after id ∉ y.events
  outcome : ∀ outcome, .prepared id outcome ∈ y.events → outcome = .cancelled ∨ y.action.fails = true

variable {e e' : Engine} {id : Nat} {p : Preparation} {action : EngineAction}
  {events : List EngineEvent}

theorem Ends.outcome_of_cancelled {outcome : PrepareOutcome} (h : Ends p action outcome)
    (hopen : p.stage.isConcluded = false) : outcome = .cancelled ∨ action.fails = true := by
  cases h with
  | cancelled => exact .inl rfl
  | @uncreated _ _ _ creation _ _ _ houtcome =>
      cases creation with
      | created => simp [Creation.outcome?] at houtcome
      | failed chain => exact .inr rfl
      | panicked => exact .inr rfl
  | @unprepared _ _ _ _ result _ _ houtcome =>
      cases result with
      | prepared cleanup => simp [CollectorPrepared.outcome?] at houtcome
      | failed chain => exact .inr rfl
      | panicked => exact .inr rfl
  | uncommitted hstage => simp [hstage, PrepareStage.isConcluded] at hopen
  | ready hstage => simp [hstage, PrepareStage.isConcluded] at hopen

theorem Ends.outcome_of_concluded {outcome : PrepareOutcome} (h : Ends p action outcome)
    (hconcluded : p.stage.isConcluded = true) : outcome = .ready ∨ outcome = .panicked := by
  cases h with
  | cancelled _ hopen => simp [hopen] at hconcluded
  | uncreated hstage => simp [hstage, PrepareStage.isConcluded] at hconcluded
  | unprepared hstage => simp [hstage, PrepareStage.isConcluded] at hconcluded
  | uncommitted => exact .inr rfl
  | ready => exact .inl rfl

/-! ## One step -/

/-- The later preparation is the same one, maybe further on. -/
structure Goes (p later : Preparation) : Prop where
  plan : later.plan = p.plan
  cancelled : p.cancelled = true → later.cancelled = true
  concluded : p.stage.isConcluded = true → later.stage.isConcluded = true
  looked : later.stage.isConcluded = true → p.stage.isConcluded = true ∨ p.cancelled = false

theorem Goes.refl (p : Preparation) : Goes p p := ⟨rfl, id, id, .inl⟩

theorem Goes.further {stage : PrepareStage} (hconcluded : p.stage.isConcluded = true)
    (hstage : stage.isConcluded = true) : Goes p { p with stage } :=
  ⟨rfl, id, fun _ => hstage, fun _ => .inl hconcluded⟩

theorem goes_of_insert {k : Nat} {p' later : Preparation} (hp : e.preparations.get? k = some p)
    (hnext : e'.preparations = e.preparations.insert k p') (hgoes : Goes p p')
    (hlater : e'.preparations.get? id = some later) :
    ∃ p, e.preparations.get? id = some p ∧ Goes p later := by
  rw [hnext, Table.get?_insert] at hlater
  split at hlater
  · next hid =>
      obtain rfl := Option.some.inj hlater
      exact ⟨p, hid ▸ hp, hgoes⟩
  · exact ⟨later, hlater, .refl later⟩

theorem goes_of_erase {k : Nat} {later : Preparation}
    (hnext : e'.preparations = e.preparations.erase k)
    (hlater : e'.preparations.get? id = some later) :
    ∃ p, e.preparations.get? id = some p ∧ Goes p later := by
  rw [hnext] at hlater
  exact ⟨later, Table.get?_of_get?_erase hlater, .refl later⟩

/-- A preparation that is there after a step and is not new has been there before. -/
theorem goes_of_step (taken : e.step action = some (e', events)) {later : Preparation}
    (hold : id < e.nextId) (hlater : e'.preparations.get? id = some later) :
    ∃ p, e.preparations.get? id = some p ∧ Goes p later := by
  cases hkind : action.isOfRound with
  | true =>
      rw [(round_frame hkind taken).2.1] at hlater
      exact ⟨later, hlater, .refl later⟩
  | false =>
      have hprepares := prepares_of_step hkind taken
      generalize signals events = raised at hprepares
      cases hprepares with
      | begins _ hnext =>
          rw [hnext, Table.get?_insert, if_neg (Nat.ne_of_lt hold)] at hlater
          exact ⟨later, hlater, .refl later⟩
      | cancels _ hp hnext =>
          exact goes_of_insert hp hnext ⟨rfl, fun _ => rfl, fun h => h, .inl⟩ hlater
      | goesOn _ hp hnext hplan hcancelled hopen hopen' =>
          exact goes_of_insert hp hnext
            ⟨hplan, by simp [hcancelled], by simp [hopen], by simp [hopen']⟩ hlater
      | concludes _ hp _ hcancelled hnext =>
          exact goes_of_insert hp hnext
            ⟨rfl, fun h => h, fun _ => rfl, fun _ => .inr hcancelled⟩ hlater
      | swaps _ hp hstage hnext =>
          have hconcluded := congrArg PrepareStage.isConcluded hstage
          exact goes_of_insert hp hnext (.further hconcluded rfl) hlater
      | goesLive _ hp hstage hnext =>
          have hconcluded := congrArg PrepareStage.isConcluded hstage
          exact goes_of_insert hp hnext (.further hconcluded rfl) hlater
      | breaksOff _ _ _ hnext => exact goes_of_erase hnext hlater
      | ends _ _ _ _ hnext => exact goes_of_erase hnext hlater
      | dropped _ _ hnext => exact goes_of_erase hnext hlater

/-- A preparation that is over never comes back. -/
theorem none_of_step (taken : e.step action = some (e', events)) (hold : id < e.nextId)
    (hnone : e.preparations.get? id = none) : e'.preparations.get? id = none := by
  cases hlater : e'.preparations.get? id with
  | none => rfl
  | some later =>
      obtain ⟨p, hp, -⟩ := goes_of_step taken hold hlater
      simp [hp] at hnone

theorem before_of_step (taken : e.step action = some (e', events)) (h : .before id ∈ events) :
    ∃ p, e.preparations.get? id = some p ∧ p.cancelled = false ∧ p.stage.isConcluded = false := by
  have hprepares := prepares_of_mem taken h rfl (by simp)
  rw [← mem_signals rfl] at h
  generalize signals events = raised at h hprepares
  cases hprepares with
  | @concludes k p _ hp hstage hcancelled =>
      obtain rfl : id = k := by simpa using h
      exact ⟨p, hp, hcancelled, by rw [hstage]; rfl⟩
  | _ => simp at h

theorem after_of_step (taken : e.step action = some (e', events)) (h : .after id ∈ events) :
    ∃ p, e.preparations.get? id = some p ∧ p.stage.isConcluded = true := by
  have hprepares := prepares_of_mem taken h rfl (by simp)
  rw [← mem_signals rfl] at h
  generalize signals events = raised at h hprepares
  cases hprepares with
  | @goesLive k p cleanups _ hp hstage =>
      obtain rfl : id = k := by simpa using h
      exact ⟨p, hp, by rw [hstage]; rfl⟩
  | @breaksOff k _ p cleanups _ hp hstage =>
      obtain rfl : id = k := by simpa using h
      exact ⟨p, hp, by rw [hstage]; rfl⟩
  | _ => simp at h

theorem prepared_of_step (taken : e.step action = some (e', events)) {outcome : PrepareOutcome}
    (h : .prepared id outcome ∈ events) :
    ∃ p, e.preparations.get? id = some p ∧
      (Ends p action outcome ∨ p.stage.isConcluded = true ∧ outcome = .panicked) := by
  have hprepares := prepares_of_mem taken h rfl (by simp)
  rw [← mem_signals rfl] at h
  generalize signals events = raised at h hprepares
  cases hprepares with
  | @breaksOff k _ p cleanups _ hp hstage =>
      obtain ⟨rfl, rfl⟩ : id = k ∧ outcome = .panicked := by simpa using h
      exact ⟨p, hp, .inr ⟨by rw [hstage]; rfl, rfl⟩⟩
  | @ends _ k p _ _ hp hends =>
      obtain ⟨rfl, rfl⟩ : id = k ∧ outcome = _ := by simpa using h
      exact ⟨p, hp, .inl hends⟩
  | _ => simp at h

theorem swap_of_step {commits : Commits} (taken : e.step (.swap id commits) = some (e', events)) :
    ∃ p, e.preparations.get? id = some p ∧ p.stage.isConcluded = true := by
  cases commits with
  | all =>
      obtain ⟨p, hp, hstage, -⟩ := swap_all_eq_some taken
      exact ⟨p, hp, by rw [hstage]; rfl⟩
  | only domains =>
      obtain ⟨p, -, hp, hstage, -⟩ := swap_only_eq_some taken
      exact ⟨p, hp, by rw [hstage]; rfl⟩

/-- Only a swap touches the live state, or what a collector answers from. -/
theorem live_of_step (hswap : ∀ id commits, action ≠ .swap id commits)
    (taken : e.step action = some (e', events)) :
    e'.live = e.live ∧ (∀ c, (e'.selection c).live = (e.selection c).live) ∧
      ∀ domain c, .committing domain c ∉ events := by
  cases hkind : action.isOfRound with
  | true =>
      obtain ⟨hlive, -, hselections, -, -, hcommitting⟩ := round_frame hkind taken
      exact ⟨hlive, fun c => by rw [selection, selection, hselections], hcommitting⟩
  | false =>
      obtain ⟨hlive, hselections, hcommitting⟩ := (preparing_frame hkind taken).unswapped hswap
      refine ⟨hlive, fun c => ?_, hcommitting⟩
      rcases hselections with hsame | ⟨collector, plan, domain, hstaged⟩
      · rw [selection, selection, hsame]
      · rw [selection, hstaged]
        exact live_stageSelection e collector plan domain c

theorem live_of_not_swapped (hswap : ∀ id, action ≠ .swap id .all)
    (taken : e.step action = some (e', events)) : e'.live = e.live := by
  by_cases hother : ∃ id commits, action = .swap id commits
  · obtain ⟨id, commits, rfl⟩ := hother
    cases commits with
    | all => exact absurd rfl (hswap id)
    | only domains =>
        obtain ⟨p, done, -, -, hnext⟩ := swap_only_eq_some taken
        cases hnext
        rfl
  · exact (live_of_step (fun id commits h => hother ⟨id, commits, h⟩) taken).1

theorem Abandoned.of_goes (h : e.Abandoned id) (hnextId : e.nextId ≤ e'.nextId)
    (goes : ∀ later, e'.preparations.get? id = some later →
      ∃ p, e.preparations.get? id = some p ∧ Goes p later) : e'.Abandoned id := by
  refine ⟨Nat.lt_of_lt_of_le h.1 hnextId, fun later hlater => ?_⟩
  obtain ⟨p, hp, hgoes⟩ := goes later hlater
  obtain ⟨hcancelled, hopen⟩ := h.2 p hp
  refine ⟨hgoes.cancelled hcancelled, Bool.eq_false_iff.2 fun hconcluded => ?_⟩
  rcases hgoes.looked hconcluded with hwas | huncancelled
  · simp [hopen] at hwas
  · simp [hcancelled] at huncancelled

theorem Abandoned.step (h : e.Abandoned id) (taken : e.step action = some (e', events)) :
    e'.Abandoned id :=
  h.of_goes (nextId_le_of_step taken) fun _ hlater => goes_of_step taken h.1 hlater

theorem Abandoned.spares {y : Step Engine EngineAction EngineEvent} (h : y.before.Abandoned id)
    (taken : y.before.step y.action = some (y.after, y.events)) : Spares id y where
  live := by
    by_cases hswap : ∃ other commits, y.action = .swap other commits
    · obtain ⟨other, commits, haction⟩ := hswap
      refine .inl ⟨other, commits, ?_, haction⟩
      rintro rfl
      rw [haction] at taken
      obtain ⟨p, hp, hconcluded⟩ := swap_of_step taken
      simp [(h.2 p hp).2] at hconcluded
    · simp only [not_exists] at hswap
      exact .inr (live_of_step hswap taken)
  before hevent := by
    obtain ⟨p, hp, huncancelled, -⟩ := before_of_step taken hevent
    simp [(h.2 p hp).1] at huncancelled
  after hevent := by
    obtain ⟨p, hp, hconcluded⟩ := after_of_step taken hevent
    simp [(h.2 p hp).2] at hconcluded
  outcome outcome hevent := by
    obtain ⟨p, hp, hends | ⟨hconcluded, -⟩⟩ := prepared_of_step taken hevent
    · exact hends.outcome_of_cancelled (h.2 p hp).2
    · simp [(h.2 p hp).2] at hconcluded

theorem Concluded.step (h : e.Concluded id) (taken : e.step action = some (e', events)) :
    e'.Concluded id := by
  refine ⟨Nat.lt_of_lt_of_le h.1 (nextId_le_of_step taken), fun later hlater => ?_⟩
  obtain ⟨p, hp, hgoes⟩ := goes_of_step taken h.1 hlater
  exact hgoes.concluded (h.2 p hp)

theorem Concluded.outcome (h : e.Concluded id) (taken : e.step action = some (e', events))
    {outcome : PrepareOutcome} (hevent : .prepared id outcome ∈ events) :
    outcome = .ready ∨ outcome = .panicked := by
  obtain ⟨p, hp, hends | ⟨-, hpanicked⟩⟩ := prepared_of_step taken hevent
  · exact hends.outcome_of_concluded (h.2 p hp)
  · exact .inr hpanicked

/-- A preparation that is cancelled and not looked yet can end at once, unless it waits for a look at
the live collectors. -/
theorem ends_at_once (hp : e.preparations.get? id = some p) (hcancelled : p.cancelled = true)
    (hopen : p.stage.isConcluded = false) (hlook : p.stage ≠ .copying) :
    ∃ action next, e.step action = some next ∧ .prepared id .cancelled ∈ next.2 := by
  cases hstage : p.stage with
  | connecting attempt =>
      refine ⟨.noticeCancel id, e.endPreparation id .cancelled, ?_, by simp [endPreparation]⟩
      simp [step, noticeCancel, withPreparation, hp, hcancelled, hstage]
  | retrying attempt =>
      refine ⟨.noticeCancel id, e.endPreparation id .cancelled, ?_, by simp [endPreparation]⟩
      simp [step, noticeCancel, withPreparation, hp, hcancelled, hstage]
  | preparing domain collector rest =>
      refine ⟨.noticeCancel id, e.endPreparation id .cancelled, ?_, by simp [endPreparation]⟩
      simp [step, noticeCancel, withPreparation, hp, hcancelled, hstage]
  | copying => exact absurd hstage hlook
  | visiting rest =>
      cases rest with
      | nil =>
          refine ⟨.conclude id, e.endPreparation id .cancelled, ?_, by simp [endPreparation]⟩
          simp [step, conclude, withPreparation, hp, hcancelled, hstage]
      | cons domain rest =>
          cases hknown : p.known.get? domain with
          | some collector =>
              refine ⟨.visit id .created true, e.endPreparation id .cancelled, ?_,
                by simp [endPreparation]⟩
              simp [step, visit, withPreparation, hp, hstage, hknown, askCollector, hcancelled]
          | none =>
              refine ⟨.visit id .created true,
                ({ e with nextCollector := e.nextCollector + 1,
                          preparations := e.preparations.erase id },
                  [.creating domain, .prepared id .cancelled]), ?_, by simp⟩
              simp [step, visit, withPreparation, hp, hstage, hknown, askCollector, hcancelled,
                endPreparation]
  | swapping => simp [hstage, PrepareStage.isConcluded] at hopen
  | swapped cleanups => simp [hstage, PrepareStage.isConcluded] at hopen
  | pruning => simp [hstage, PrepareStage.isConcluded] at hopen

/-! ## Runs -/

section Runs

variable {last : Engine} {steps : List (Step Engine EngineAction EngineEvent)}

theorem Abandoned.spared (h : e.Abandoned id) (run : Run Engine.step e steps last)
    {y : Step Engine EngineAction EngineEvent} (hy : y ∈ steps) : Spares id y := by
  obtain ⟨hbefore, taken⟩ := run.invariant_before h (fun taken hx => hx.step taken) hy
  exact hbefore.spares taken

theorem Concluded.outcome_of_run (h : e.Concluded id) (run : Run Engine.step e steps last)
    {y : Step Engine EngineAction EngineEvent} (hy : y ∈ steps) {outcome : PrepareOutcome}
    (hevent : .prepared id outcome ∈ y.events) : outcome = .ready ∨ outcome = .panicked := by
  obtain ⟨hbefore, taken⟩ := run.invariant_before h (fun taken hx => hx.step taken) hy
  exact hbefore.outcome taken hevent

end Runs

end Engine

end Cadence
