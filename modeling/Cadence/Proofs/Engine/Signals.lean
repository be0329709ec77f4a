import Cadence.Proofs.Engine.Actions
import Cadence.Proofs.Run

/-!
# What others learn of a step

Four kinds of events tell others about a step: a preparation is about to go live,
has gone live or is over, and a round has its batch.  A step either works on one
preparation or on one round, and its signals say what has come of it.
-/

namespace Cadence

def EngineEvent.isSignal : EngineEvent → Bool
  | before _ | after _ | prepared .. | collected .. => true
  | _ => false

/-- The preparation has gone past the point where it looks whether it is cancelled. -/
def PrepareStage.isConcluded : PrepareStage → Bool
  | swapping | swapped _ | pruning => true
  | _ => false

namespace Engine

def signals (events : List EngineEvent) : List EngineEvent := events.filter (·.isSignal)

theorem mem_signals {event : EngineEvent} {events : List EngineEvent}
    (h : event.isSignal = true) : event ∈ signals events ↔ event ∈ events := by
  simp [signals, h]

@[simp] theorem signals_commitEvents (collectors : Table String Nat) :
    signals (commitEvents collectors) = [] := by
  rw [signals, List.filter_eq_nil_iff]
  intro event hevent
  obtain ⟨⟨domain, c⟩, -, rfl⟩ := List.mem_map.1 hevent
  exact Bool.false_ne_true

@[simp] theorem signals_cleaning (cleanups : List Cleanup) :
    signals (cleanups.map .cleaning) = [] := by
  rw [signals, List.filter_eq_nil_iff]
  intro event hevent
  obtain ⟨cleanup, -, rfl⟩ := List.mem_map.1 hevent
  exact Bool.false_ne_true

@[simp] theorem signals_requested (p : Preparation) (domain : String) :
    signals (requested p domain) = [] := by
  unfold requested
  split <;> rfl

theorem signals_append (events more : List EngineEvent) :
    signals (events ++ more) = signals events ++ signals more :=
  List.filter_append ..

/-- Why a preparation ends as it does. -/
inductive Ends (p : Preparation) : EngineAction → PrepareOutcome → Prop
  | cancelled {action : EngineAction} : p.cancelled = true → p.stage.isConcluded = false →
      Ends p action .cancelled
  | uncreated {id : Nat} {domain : String} {rest : List String} {creation : Creation}
      {noticed : Bool} {outcome : PrepareOutcome} : p.stage = .visiting (domain :: rest) →
      creation.outcome? domain = some outcome → Ends p (.visit id creation noticed) outcome
  | unprepared {id collector : Nat} {domain : String} {rest : List String}
      {result : CollectorPrepared} {outcome : PrepareOutcome} :
      p.stage = .preparing domain collector rest → result.outcome? domain = some outcome →
      Ends p (.collectorPrepared id result) outcome
  | uncommitted {id : Nat} {domains : List String} : p.stage = .swapping →
      Ends p (.swap id (.only domains)) .panicked
  | ready {id : Nat} : p.stage = .pruning → Ends p (.prune id) .ready

/-- The two agree in all that others see of them, but for preparations. -/
structure Steady (e e' : Engine) : Prop where
  live : e'.live = e.live
  nextId : e'.nextId = e.nextId
  rounds : e'.rounds = e.rounds

/-- A step that works on a preparation, with its signals. -/
inductive Prepares (e e' : Engine) : EngineAction → List EngineEvent → Prop
  | begins {plan : Plan} {cancelled : Bool} : Steady { e with nextId := e.nextId + 1 } e' →
      e'.preparations = e.preparations.insert e.nextId { plan, cancelled } →
      Prepares e e' (.beginPrepare plan cancelled) []
  | cancels {id : Nat} {p : Preparation} : Steady e e' → e.preparations.get? id = some p →
      e'.preparations = e.preparations.insert id { p with cancelled := true } →
      Prepares e e' (.cancel id) []
  | goesOn {action : EngineAction} {id : Nat} {p p' : Preparation} : Steady e e' →
      e.preparations.get? id = some p → e'.preparations = e.preparations.insert id p' →
      p'.plan = p.plan → p'.cancelled = p.cancelled → p.stage.isConcluded = false →
      p'.stage.isConcluded = false → (∀ k commits, action ≠ .swap k commits) →
      Prepares e e' action []
  | concludes {id : Nat} {p : Preparation} : Steady e e' → e.preparations.get? id = some p →
      p.stage = .visiting [] → p.cancelled = false →
      e'.preparations = e.preparations.insert id { p with stage := .swapping } →
      Prepares e e' (.conclude id) [.before id]
  | swaps {id : Nat} {p : Preparation} :
      Steady { e with live := .ofPlan p.plan p.collectors p.cleanups } e' →
      e.preparations.get? id = some p → p.stage = .swapping →
      e'.preparations = e.preparations.insert id { p with stage := .swapped e.live.cleanups } →
      Prepares e e' (.swap id .all) []
  | goesLive {id : Nat} {p : Preparation} {cleanups : List Cleanup} : Steady e e' →
      e.preparations.get? id = some p → p.stage = .swapped cleanups →
      e'.preparations = e.preparations.insert id { p with stage := .pruning } →
      Prepares e e' (.cleanUp id none) [.after id]
  | breaksOff {id n : Nat} {p : Preparation} {cleanups : List Cleanup} : Steady e e' →
      e.preparations.get? id = some p → p.stage = .swapped cleanups →
      e'.preparations = e.preparations.erase id →
      Prepares e e' (.cleanUp id (some n)) [.after id, .prepared id .panicked]
  | ends {action : EngineAction} {id : Nat} {p : Preparation} {outcome : PrepareOutcome} :
      Steady e e' → e.preparations.get? id = some p → Ends p action outcome →
      (∀ k commits, action = .swap k commits → k = id) →
      e'.preparations = e.preparations.erase id → Prepares e e' action [.prepared id outcome]
  | dropped {id : Nat} {p : Preparation} : Steady e e' → e.preparations.get? id = some p →
      e'.preparations = e.preparations.erase id → Prepares e e' (.dropPreparation id) []

/-- A step that works on a round, with its signals. -/
inductive Collects (e e' : Engine) : EngineAction → List EngineEvent → Prop
  | begins {level : String} : e'.nextId = e.nextId + 1 →
      e'.rounds = e.rounds.insert e.nextId { level } → Collects e e' (.beginCollect level) []
  | goesOn {action : EngineAction} {id : Nat} {r r' : EngineRound} : e'.nextId = e.nextId →
      e.rounds.get? id = some r → e'.rounds = e.rounds.insert id r' → r'.level = r.level →
      Collects e e' action []
  | collects {action : EngineAction} {id : Nat} {r : EngineRound} {batch : Batch} :
      e'.nextId = e.nextId → e.rounds.get? id = some r → e'.rounds = e.rounds.erase id →
      batch.level = r.level → Collects e e' action [.collected id batch]
  | dropped {id : Nat} : e'.nextId = e.nextId → e'.rounds = e.rounds.erase id →
      Collects e e' (.dropRound id) []

variable {e e' : Engine} {action : EngineAction} {events : List EngineEvent}

theorem Ends.was_cancelled {p : Preparation} (h : Ends p action .cancelled) :
    p.cancelled = true := by
  cases h with
  | cancelled hcancelled => exact hcancelled
  | @uncreated _ _ _ creation _ _ _ houtcome =>
      cases creation <;> simp [Creation.outcome?] at houtcome
  | @unprepared _ _ _ _ result _ _ houtcome =>
      cases result <;> simp [CollectorPrepared.outcome?] at houtcome

theorem Ends.was_pruning {p : Preparation} (h : Ends p action .ready) : p.stage = .pruning := by
  cases h with
  | ready hstage => exact hstage
  | @uncreated _ _ _ creation _ _ _ houtcome =>
      cases creation <;> simp [Creation.outcome?] at houtcome
  | @unprepared _ _ _ _ result _ _ houtcome =>
      cases result <;> simp [CollectorPrepared.outcome?] at houtcome

theorem prepares_of_step (hkind : action.isOfRound = false)
    (taken : e.step action = some (e', events)) : Prepares e e' action (signals events) := by
  cases action with
  | beginPrepare plan cancelled =>
      cases taken
      exact .begins ⟨rfl, rfl, rfl⟩ rfl
  | cancel id =>
      obtain ⟨p, hp, hnext⟩ := cancelPreparation_eq_some taken
      cases hnext
      exact .cancels ⟨rfl, rfl, rfl⟩ hp rfl
  | pinged id result =>
      obtain ⟨p, attempt, hp, hstage, ⟨-, hnext⟩ | ⟨-, hnext⟩⟩ := pinged_eq_some taken <;>
        cases hnext <;>
        exact .goesOn ⟨rfl, rfl, rfl⟩ hp rfl rfl rfl (by rw [hstage]; rfl) rfl (by simp)
  | retry id =>
      obtain ⟨p, attempt, hp, hstage, hnext⟩ := retry_eq_some taken
      cases hnext
      exact .goesOn ⟨rfl, rfl, rfl⟩ hp rfl rfl rfl (by rw [hstage]; rfl) rfl (by simp)
  | noticeCancel id =>
      obtain ⟨p, hp, hcancelled, hstage, hnext⟩ := noticeCancel_eq_some taken
      cases hnext
      refine .ends ⟨rfl, rfl, rfl⟩ hp (.cancelled hcancelled ?_) (by simp) rfl
      obtain ⟨attempt, hstage | hstage⟩ | ⟨domain, collector, rest, hstage⟩ := hstage <;>
        rw [hstage] <;> rfl
  | copyLive id =>
      obtain ⟨p, hp, hstage, -, hnext⟩ := copyLive_eq_some taken
      cases hnext
      exact .goesOn ⟨rfl, rfl, rfl⟩ hp rfl rfl rfl (by rw [hstage]; rfl) rfl (by simp)
  | visit id creation noticed =>
      obtain ⟨p, domain, rest, made, hp, hstage, ⟨-, outcome, houtcome, hnext⟩ |
        ⟨collector, -, hnext⟩⟩ := visit_eq_some taken
      · cases hnext
        rw [signals_append, signals_requested]
        refine .ends ⟨rfl, rfl, rfl⟩ hp ?_ (by simp) rfl
        rcases houtcome with ⟨hcancelled, rfl⟩ | houtcome
        · exact .cancelled hcancelled (by rw [hstage]; rfl)
        · exact .uncreated hstage houtcome
      · cases hnext
        rw [signals_append, signals_requested]
        exact .goesOn ⟨rfl, rfl, rfl⟩ hp rfl rfl rfl (by rw [hstage]; rfl) rfl (by simp)
  | collectorPrepared id result =>
      obtain ⟨p, domain, collector, rest, hp, hstage, ⟨outcome, houtcome, hnext⟩ |
        ⟨cleanup, -, hnext⟩⟩ := collectorPrepared_eq_some taken
      · cases hnext
        exact .ends ⟨rfl, rfl, rfl⟩ hp (.unprepared hstage houtcome) (by simp) rfl
      · cases hnext
        exact .goesOn ⟨rfl, rfl, rfl⟩ hp rfl rfl rfl (by rw [hstage]; rfl) rfl (by simp)
  | conclude id =>
      obtain ⟨p, hp, hstage, ⟨hcancelled, hnext⟩ | ⟨hcancelled, hnext⟩⟩ := conclude_eq_some taken
      · cases hnext
        exact .ends ⟨rfl, rfl, rfl⟩ hp (.cancelled hcancelled (by rw [hstage]; rfl)) (by simp) rfl
      · cases hnext
        exact .concludes ⟨rfl, rfl, rfl⟩ hp hstage hcancelled rfl
  | swap id commits =>
      cases commits with
      | all =>
          obtain ⟨p, hp, hstage, -, hnext⟩ := swap_all_eq_some taken
          cases hnext
          rw [signals_commitEvents]
          exact .swaps ⟨rfl, rfl, rfl⟩ hp hstage rfl
      | only domains =>
          obtain ⟨p, done, hp, hstage, hnext⟩ := swap_only_eq_some taken
          cases hnext
          rw [signals_append, signals_commitEvents]
          exact .ends ⟨rfl, rfl, rfl⟩ hp (.uncommitted hstage) (by simp [eq_comm]) rfl
  | cleanUp id finished =>
      obtain ⟨p, cleanups, hp, hstage, ⟨rfl, hnext⟩ | ⟨n, rfl, -, hnext⟩⟩ := cleanUp_eq_some taken
      · cases hnext
        rw [← List.singleton_append, signals_append, signals_cleaning]
        exact .goesLive ⟨rfl, rfl, rfl⟩ hp hstage rfl
      · cases hnext
        rw [List.cons_append, ← List.singleton_append, signals_append, signals_append,
          signals_cleaning]
        exact .breaksOff ⟨rfl, rfl, rfl⟩ hp hstage rfl
  | prune id =>
      obtain ⟨p, hp, hstage, -, hnext⟩ := prune_eq_some taken
      cases hnext
      exact .ends ⟨rfl, rfl, rfl⟩ hp (.ready hstage) (by simp) rfl
  | dropPreparation id =>
      obtain ⟨p, hp, -, hnext⟩ := dropPreparation_eq_some taken
      cases hnext
      exact .dropped ⟨rfl, rfl, rfl⟩ hp rfl
  | _ => contradiction

theorem collects_of_step (hkind : action.isOfRound = true)
    (taken : e.step action = some (e', events)) : Collects e e' action (signals events) := by
  cases action with
  | beginCollect level =>
      cases taken
      exact .begins rfl rfl
  | enter id now =>
      obtain ⟨r, hr, -, -, ⟨-, hnext⟩ | ⟨-, hnext⟩⟩ := enter_eq_some taken
      · cases hnext
        exact .collects rfl hr rfl rfl
      · cases hnext
        exact .goesOn rfl hr rfl rfl
  | startTask id domain =>
      obtain ⟨r, plan, began, tasks, task, hr, -, -, -, -, hnext⟩ := startTask_eq_some taken
      cases hnext
      exact .goesOn rfl hr rfl rfl
  | finishTask id domain result =>
      obtain ⟨r, plan, began, tasks, task, hr, -, -, -, -, hnext⟩ := finishTask_eq_some taken
      cases hnext
      exact .goesOn rfl hr rfl rfl
  | loseTask id domain =>
      obtain ⟨r, plan, began, tasks, task, hr, -, -, -, hnext⟩ := loseTask_eq_some taken
      cases hnext
      exact .goesOn rfl hr rfl rfl
  | close id now =>
      obtain ⟨r, plan, began, tasks, hr, -, -, hnext⟩ := close_eq_some taken
      cases hnext
      exact .collects (record_nextId ..) hr (record_rounds ..) rfl
  | dropRound id =>
      cases (step_dropRound_eq_some taken).2
      exact .dropped rfl rfl
  | _ => contradiction

theorem nextId_le_of_step (taken : e.step action = some (e', events)) : e.nextId ≤ e'.nextId := by
  cases hkind : action.isOfRound with
  | false =>
      have hprepares := prepares_of_step hkind taken
      generalize signals events = raised at hprepares
      cases hprepares with
      | begins same =>
          have hnextId : e'.nextId = e.nextId + 1 := same.nextId
          omega
      | cancels same => exact Nat.le_of_eq same.nextId.symm
      | goesOn same => exact Nat.le_of_eq same.nextId.symm
      | concludes same => exact Nat.le_of_eq same.nextId.symm
      | swaps same => exact Nat.le_of_eq same.nextId.symm
      | goesLive same => exact Nat.le_of_eq same.nextId.symm
      | breaksOff same => exact Nat.le_of_eq same.nextId.symm
      | ends same => exact Nat.le_of_eq same.nextId.symm
      | dropped same => exact Nat.le_of_eq same.nextId.symm
  | true =>
      have hcollects := collects_of_step hkind taken
      generalize signals events = raised at hcollects
      cases hcollects <;> omega

/-- Rounds have no signals but their batches. -/
theorem prepares_of_mem (taken : e.step action = some (e', events)) {event : EngineEvent}
    (h : event ∈ events) (hsignal : event.isSignal = true)
    (hother : ∀ id batch, event ≠ .collected id batch) : Prepares e e' action (signals events) := by
  cases hkind : action.isOfRound with
  | false => exact prepares_of_step hkind taken
  | true =>
      rw [← mem_signals hsignal] at h
      have hcollects := collects_of_step hkind taken
      generalize signals events = raised at h hcollects
      cases hcollects <;> simp [hother] at h

/-! ## Numbers -/

/-- Preparations and rounds have numbers that will not be given again. -/
structure Numbered (e : Engine) : Prop where
  preparations : ∀ id p, e.preparations.get? id = some p → id < e.nextId
  rounds : ∀ id r, e.rounds.get? id = some r → id < e.nextId

theorem numbered_create (settings : EngineSettings) (board : Board) :
    (create settings board).Numbered :=
  ⟨by simp [create, say], by simp [create, say]⟩

private theorem lt_of_get?_insert {α : Type} {t : Table Nat α} {id k : Nat} {v w : α}
    {next next' : Nat}
    (old : ∀ id v, t.get? id = some v → id < next) (hnext : next ≤ next') (hk : k < next')
    (hw : (t.insert k v).get? id = some w) : id < next' := by
  rw [Table.get?_insert] at hw
  split at hw
  · next hid => omega
  · exact Nat.lt_of_lt_of_le (old id w hw) hnext

theorem Steady.rounds_lt (h : Steady e e') (numbered : e.Numbered) :
    ∀ id r, e'.rounds.get? id = some r → id < e'.nextId := by
  rw [h.rounds, h.nextId]
  exact numbered.rounds

theorem Numbered.prepares {signals : List EngineEvent} (h : e.Numbered)
    (prepares : Prepares e e' action signals) : e'.Numbered := by
  have kept : ∀ {id : Nat} {p p' : Preparation}, Steady e e' → e.preparations.get? id = some p →
      e'.preparations = e.preparations.insert id p' → e'.Numbered := by
    intro id p p' same hp hnext
    refine ⟨fun k q hq => ?_, same.rounds_lt h⟩
    rw [hnext] at hq
    rw [same.nextId]
    exact lt_of_get?_insert h.preparations (Nat.le_refl _) (h.preparations id p hp) hq
  have gone : ∀ {id : Nat}, Steady e e' → e'.preparations = e.preparations.erase id →
      e'.Numbered := by
    intro id same hnext
    refine ⟨fun k q hq => ?_, same.rounds_lt h⟩
    rw [hnext] at hq
    rw [same.nextId]
    exact h.preparations k q (Table.get?_of_get?_erase hq)
  cases prepares with
  | begins same hnext =>
      have hnextId : e'.nextId = e.nextId + 1 := same.nextId
      constructor
      · intro k q hq
        rw [hnext] at hq
        exact lt_of_get?_insert h.preparations (by omega) (by omega) hq
      · intro k r hr
        rw [same.rounds] at hr
        have := h.rounds k r hr
        omega
  | cancels same hp hnext => exact kept same hp hnext
  | goesOn same hp hnext => exact kept same hp hnext
  | concludes same hp _ _ hnext => exact kept same hp hnext
  | @swaps id p same hp _ hnext =>
      have hnextId : e'.nextId = e.nextId := same.nextId
      constructor
      · intro k q hq
        rw [hnext] at hq
        exact lt_of_get?_insert h.preparations (by omega) (hnextId ▸ h.preparations id p hp) hq
      · intro k r hr
        rw [same.rounds] at hr
        exact hnextId ▸ h.rounds k r hr
  | goesLive same hp _ hnext => exact kept same hp hnext
  | breaksOff same _ _ hnext => exact gone same hnext
  | ends same _ _ _ hnext => exact gone same hnext
  | dropped same _ hnext => exact gone same hnext

theorem Numbered.collects {signals : List EngineEvent} (h : e.Numbered)
    (collects : Collects e e' action signals) (hsame : e'.preparations = e.preparations) :
    e'.Numbered := by
  have hle : e.nextId ≤ e'.nextId := by
    cases collects with
    | begins hnextId => omega
    | goesOn hnextId => omega
    | collects hnextId => omega
    | dropped hnextId => omega
  constructor
  · intro k q hq
    rw [hsame] at hq
    exact Nat.lt_of_lt_of_le (h.preparations k q hq) hle
  · intro k r hr
    cases collects with
    | begins hnextId hnext =>
        rw [hnext] at hr
        exact lt_of_get?_insert h.rounds hle (by omega) hr
    | @goesOn _ id r₀ _ hnextId hr₀ hnext =>
        rw [hnext] at hr
        exact lt_of_get?_insert h.rounds hle (hnextId ▸ h.rounds id r₀ hr₀) hr
    | collects hnextId _ hnext =>
        rw [hnext] at hr
        exact hnextId ▸ h.rounds k r (Table.get?_of_get?_erase hr)
    | dropped hnextId hnext =>
        rw [hnext] at hr
        exact hnextId ▸ h.rounds k r (Table.get?_of_get?_erase hr)

theorem Numbered.step (h : e.Numbered) (taken : e.step action = some (e', events)) :
    e'.Numbered := by
  cases hkind : action.isOfRound with
  | false => exact h.prepares (prepares_of_step hkind taken)
  | true => exact h.collects (collects_of_step hkind taken) (round_frame hkind taken).2.1

theorem numbered_of_run {settings : EngineSettings} {board : Board} {last : Engine}
    {steps : List (Step Engine EngineAction EngineEvent)}
    (run : Run step (create settings board) steps last) : last.Numbered :=
  run.invariant (numbered_create settings board) fun taken hbefore => hbefore.step taken

/-- A round that is there has been there before, or begins with the step. -/
theorem mem_rounds_before (taken : e.step action = some (e', events)) {id : Nat}
    (there : id ∈ e'.rounds) : id ∈ e.rounds ∨ id = e.nextId := by
  cases hkind : action.isOfRound with
  | false =>
      rw [(preparing_frame hkind taken).rounds] at there
      exact .inl there
  | true =>
      have hcollects := collects_of_step hkind taken
      generalize signals events = raised at hcollects
      obtain ⟨r, hr⟩ := Table.mem_iff.1 there
      cases hcollects with
      | begins _ hnext =>
          rw [hnext] at there
          exact (Table.mem_insert.1 there).symm
      | goesOn _ hold hnext =>
          rw [hnext] at there
          rcases Table.mem_insert.1 there with rfl | hmem
          · exact .inl (Table.mem_iff.2 ⟨_, hold⟩)
          · exact .inl hmem
      | collects _ _ hnext =>
          rw [hnext] at hr
          exact .inl (Table.mem_iff.2 ⟨r, Table.get?_of_get?_erase hr⟩)
      | dropped _ hnext =>
          rw [hnext] at hr
          exact .inl (Table.mem_iff.2 ⟨r, Table.get?_of_get?_erase hr⟩)

end Engine

end Cadence
