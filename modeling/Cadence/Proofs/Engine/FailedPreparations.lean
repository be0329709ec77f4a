import Cadence.Proofs.Engine.Cancelling
import Cadence.Proofs.Engine.Mirroring
import Cadence.Proofs.Engine.OnePlan

/-!
# Preparations that fail

Until it looks for the last time whether it is cancelled, a preparation stages
selections, has collectors made and waits in the queue, and that is all.  If it
fails, nothing of this is ever looked at again: a run without it goes on as the
run with it does.  Only the numbers of later preparations, rounds and collectors
are others.
-/

namespace Cadence

/-- The preparation that returns an error. -/
def EngineEvent.failure? : EngineEvent → Option Nat
  | prepared id (.failed _) => some id
  | _ => none

/-- Whether an event belongs to an attempt to prepare.  Hooks, commits, cleanups and batches do
not. -/
def EngineEvent.isAttempt : EngineEvent → Bool
  | creating _ | preparing .. | prepared .. => true
  | _ => false

namespace Engine

/-- The preparation has not looked for the last time whether it is cancelled. -/
def Open (id : Nat) (e : Engine) : Prop :=
  ∀ p, e.preparations.get? id = some p → p.stage.isConcluded = false

/-- The preparation is over, if there was one of this number. -/
def Gone (id : Nat) (e : Engine) : Prop := id < e.nextId ∧ e.preparations.get? id = none

variable {e e' e₁ : Engine} {id : Nat} {action : EngineAction} {events : List EngineEvent}

/-! ## What an attempt can do -/

/-- All that a step does for a preparation that is open. -/
structure Attempts (id : Nat) (e e₁ : Engine) (events : List EngineEvent) : Prop where
  settings : e₁.settings = e.settings
  live : e₁.live = e.live
  errors : e₁.errors = e.errors
  rounds : e₁.rounds = e.rounds
  selected : ∀ c, (e₁.selection c).live = (e.selection c).live
  queue : e₁.queue.filter (·.number ≠ id) = e.queue.filter (·.number ≠ id)
  preparations : ∀ k, k ≠ id → e₁.preparations.get? k = e.preparations.get? k
  nextId : e₁.nextId = e.nextId ∨ e.nextId = id ∧ e₁.nextId = e.nextId + 1
  nextCollector : e₁.nextCollector = e.nextCollector ∨ e₁.nextCollector = e.nextCollector + 1
  events : ∀ event ∈ events, event.isAttempt = true

namespace Attempts

theorem setPreparation (id : Nat) (e : Engine) (p : Preparation) :
    Attempts id e (e.setPreparation id p) [] where
  settings := rfl
  live := rfl
  errors := rfl
  rounds := rfl
  selected _ := rfl
  queue := rfl
  preparations k hk := by rw [Engine.setPreparation, Table.get?_insert, if_neg hk]
  nextId := .inl rfl
  nextCollector := .inl rfl
  events := by simp

theorem erasePreparation (id : Nat) (e : Engine) :
    Attempts id e { e with preparations := e.preparations.erase id } [] where
  settings := rfl
  live := rfl
  errors := rfl
  rounds := rfl
  selected _ := rfl
  queue := rfl
  preparations k hk := by rw [Table.get?_erase, if_neg hk]
  nextId := .inl rfl
  nextCollector := .inl rfl
  events := by simp

theorem filter_enqueue (t : Ticket) (e : Engine) :
    (e.enqueue t).queue.filter (·.number ≠ t.number) = e.queue.filter (·.number ≠ t.number) := by
  simp [Engine.enqueue]

theorem filter_dequeue (t : Ticket) (e : Engine) :
    (e.dequeue t).queue.filter (·.number ≠ t.number) = e.queue.filter (·.number ≠ t.number) := by
  rw [Engine.dequeue, List.filter_filter]
  refine List.filter_congr fun u _ => ?_
  by_cases hu : u = t <;> simp [hu]

end Attempts

theorem attempts_of_step (taken : e.step action = some (e₁, events))
    (hid : action.preparation? e.nextId = some id) (hopen : e.Open id) (hopen' : e₁.Open id) :
    Attempts id e e₁ events := by
  have still : ∀ {p}, e.preparations.get? id = some p → p.stage.isConcluded = true → False := by
    intro p hp hconcluded
    simp [hopen p hp] at hconcluded
  cases action with
  | beginPrepare plan cancelled =>
      obtain rfl := Option.some.inj hid
      cases taken
      exact { Attempts.setPreparation e.nextId e { plan, cancelled } with
        nextId := .inr ⟨rfl, rfl⟩ }
  | cancel k =>
      obtain rfl := Option.some.inj hid
      obtain ⟨p, -, hnext⟩ := cancelPreparation_eq_some taken
      cases hnext
      exact .setPreparation ..
  | pinged k result =>
      obtain rfl := Option.some.inj hid
      obtain ⟨p, attempt, -, -, ⟨-, hnext⟩ | ⟨-, hnext⟩⟩ := pinged_eq_some taken
      · cases hnext
        exact { Attempts.setPreparation k e { p with stage := .copying } with
          queue := Attempts.filter_enqueue (.copy k) e }
      · cases hnext
        exact { Attempts.setPreparation k e { p with stage := .retrying attempt } with }
  | retry k =>
      obtain rfl := Option.some.inj hid
      obtain ⟨p, attempt, -, -, hnext⟩ := retry_eq_some taken
      cases hnext
      exact .setPreparation ..
  | noticeCancel k =>
      obtain rfl := Option.some.inj hid
      obtain ⟨p, -, -, -, hnext⟩ := noticeCancel_eq_some taken
      cases hnext
      exact { Attempts.erasePreparation k e with
        events := by simp [EngineEvent.isAttempt] }
  | copyLive k =>
      obtain rfl := Option.some.inj hid
      obtain ⟨p, -, -, -, hnext⟩ := copyLive_eq_some taken
      cases hnext
      exact { Attempts.setPreparation k e _ with
        queue := Attempts.filter_dequeue (.copy k) e }
  | visit k creation noticed =>
      obtain rfl := Option.some.inj hid
      obtain ⟨p, domain, rest, made, -, -, ⟨hmade, outcome, -, hnext⟩ |
        ⟨collector, hsource, hnext⟩⟩ := visit_eq_some taken
      · cases hnext
        exact { Attempts.erasePreparation k e with
          nextCollector := hmade
          events := by
            rw [requested]
            split <;> simp [EngineEvent.isAttempt] }
      · have hmade : made = e.nextCollector ∨ made = e.nextCollector + 1 := by
          obtain ⟨-, hmade⟩ | ⟨-, -, hmade⟩ := hsource
          · exact .inl hmade
          · exact .inr hmade
        cases hnext
        exact { Attempts.setPreparation k e _ with
          nextCollector := hmade
          selected := live_stageSelection _ _ _ _
          events := by
            rw [requested]
            split <;> simp [EngineEvent.isAttempt] }
  | collectorPrepared k result =>
      obtain rfl := Option.some.inj hid
      obtain ⟨p, domain, collector, rest, -, -, ⟨outcome, -, hnext⟩ | ⟨cleanup, -, hnext⟩⟩ :=
        collectorPrepared_eq_some taken
      · cases hnext
        exact { Attempts.erasePreparation k e with
          events := by simp [EngineEvent.isAttempt] }
      · cases hnext
        exact .setPreparation ..
  | conclude k =>
      obtain rfl := Option.some.inj hid
      obtain ⟨p, -, -, ⟨-, hnext⟩ | ⟨-, hnext⟩⟩ := conclude_eq_some taken
      · cases hnext
        exact { Attempts.erasePreparation k e with
          events := by simp [EngineEvent.isAttempt] }
      · cases hnext
        have hswapping := hopen' _ (Table.get?_insert_self ..)
        contradiction
  | swap k commits =>
      obtain rfl := Option.some.inj hid
      obtain ⟨p, hp, hconcluded⟩ := swap_of_step taken
      exact (still hp hconcluded).elim
  | cleanUp k finished =>
      obtain rfl := Option.some.inj hid
      obtain ⟨p, cleanups, hp, hstage, -⟩ := cleanUp_eq_some taken
      exact (still hp (congrArg PrepareStage.isConcluded hstage)).elim
  | prune k =>
      obtain rfl := Option.some.inj hid
      obtain ⟨p, hp, hstage, -⟩ := prune_eq_some taken
      exact (still hp (congrArg PrepareStage.isConcluded hstage)).elim
  | dropPreparation k =>
      obtain rfl := Option.some.inj hid
      obtain ⟨p, -, -, hnext⟩ := dropPreparation_eq_some taken
      cases hnext
      exact { Attempts.erasePreparation k e with
        queue := ((Attempts.filter_dequeue (.prune k) _).trans
          (Attempts.filter_dequeue (.swap k) _)).trans (Attempts.filter_dequeue (.copy k) e) }
  | _ => contradiction

/-- The step is left out, and the engines are as they were to each other. -/
theorem Mirrors.omit {ρ κ : Renumbering} (h : Mirrors ρ κ e e') (attempts : Attempts id e e₁ events)
    (homitted : ¬ ρ.Keeps id) (alone : ∀ k ∈ e.preparations, k = id)
    (made : e.nextCollector < e₁.nextCollector → ¬ κ.Keeps e.nextCollector) :
    Mirrors ρ κ e₁ e' := by
  have alone₁ : ∀ k ∈ e₁.preparations, k = id := by
    intro k hk
    by_contra hne
    rw [Table.mem_iff, attempts.preparations k hne, ← Table.mem_iff] at hk
    exact hne (alone k hk)
  constructor
  case settings => exact h.settings.trans attempts.settings.symm
  case live => exact attempts.live ▸ h.live
  case selected => exact fun c hc => (h.selected c hc).trans (attempts.selected c).symm
  case staged =>
    intro k p hk hkeeps
    exact absurd (alone₁ k (Table.mem_iff.2 ⟨p, hk⟩) ▸ hkeeps) homitted
  case errors => exact h.errors.trans attempts.errors.symm
  case queue =>
    rw [h.queue, ← filterMap_filter_omitted homitted e.queue, ← attempts.queue,
      filterMap_filter_omitted homitted]
  case preparations =>
    exact h.preparations.congr fun k hk => attempts.preparations k fun heq => homitted (heq ▸ hk)
  case rounds => exact attempts.rounds ▸ h.rounds
  case kept => exact attempts.rounds ▸ h.kept
  case single => exact fun k hk other hother => (alone₁ k hk).trans (alone₁ other hother).symm
  case nextId =>
    rcases attempts.nextId with heq | ⟨rfl, heq⟩
    · rw [heq, h.nextId]
    · rw [heq, Renumbering.apply_succ_of_omitted homitted, h.nextId]
  case nextCollector =>
    rcases attempts.nextCollector with heq | heq
    · rw [heq, h.nextCollector]
    · rw [heq, Renumbering.apply_succ_of_omitted (made (by omega)), h.nextCollector]

/-! ## The preparations that fail -/

section Failing

variable {settings : EngineSettings} {board : Board} {last : Engine}
  {history : List (Step Engine EngineAction EngineEvent)}
  {x y : Step Engine EngineAction EngineEvent}

/-- The preparations that return an error. -/
def failures (history : List (Step Engine EngineAction EngineEvent)) : List Nat :=
  history.flatMap (fun x => x.events.filterMap EngineEvent.failure?)

theorem mem_failures :
    id ∈ failures history ↔ ∃ x ∈ history, ∃ chain, .prepared id (.failed chain) ∈ x.events := by
  have hfailure : ∀ event : EngineEvent,
      event.failure? = some id ↔ ∃ chain, event = .prepared id (.failed chain) := by
    intro event
    unfold EngineEvent.failure?
    split <;> simp_all
  simp only [failures, List.mem_flatMap, List.mem_filterMap, hfailure]
  constructor
  · rintro ⟨x, hx, event, hevent, chain, rfl⟩
    exact ⟨x, hx, chain, hevent⟩
  · rintro ⟨x, hx, chain, hevent⟩
    exact ⟨x, hx, _, hevent, chain, rfl⟩

theorem Gone.step (h : e.Gone id) (taken : e.step action = some (e', events)) : e'.Gone id :=
  ⟨Nat.lt_of_lt_of_le h.1 (nextId_le_of_step taken), none_of_step taken h.1 h.2⟩

theorem gone_of_prepared (numbered : e.Numbered) (taken : e.step action = some (e', events))
    {outcome : PrepareOutcome} (hevent : .prepared id outcome ∈ events) : e'.Gone id := by
  obtain ⟨p, hp, -⟩ := prepared_of_step taken hevent
  refine ⟨Nat.lt_of_lt_of_le (numbered.preparations id p hp) (nextId_le_of_step taken), ?_⟩
  have hprepares := prepares_of_mem taken hevent rfl (by simp)
  rw [← mem_signals rfl] at hevent
  generalize signals events = raised at hevent hprepares
  cases hprepares with
  | breaksOff _ _ _ hnext =>
      obtain ⟨rfl, -⟩ : id = _ ∧ outcome = .panicked := by simpa using hevent
      rw [hnext, Table.get?_erase, if_pos rfl]
  | ends _ _ _ _ hnext =>
      obtain ⟨rfl, -⟩ : id = _ ∧ outcome = _ := by simpa using hevent
      rw [hnext, Table.get?_erase, if_pos rfl]
  | _ => simp at hevent

/-- A step for a preparation begins it or finds it there. -/
theorem mem_of_preparation? {next : Engine × List EngineEvent} (taken : e.step action = some next)
    (hid : action.preparation? e.nextId = some id) :
    id = e.nextId ∧ action.begins = true ∨ id ∈ e.preparations := by
  cases action with
  | beginPrepare plan cancelled => exact .inl ⟨(Option.some.inj hid).symm, rfl⟩
  | cancel k | pinged k | retry k | noticeCancel k | copyLive k | visit k | collectorPrepared k
  | conclude k | swap k | cleanUp k | prune k | dropPreparation k =>
      obtain rfl := Option.some.inj hid
      obtain ⟨p, hp, -⟩ := withPreparation_eq_some.1 taken
      exact .inr (Table.mem_iff.2 ⟨p, hp⟩)
  | _ => contradiction

variable (run : Run step (create settings board) history last)

include run

theorem numbered_of_mem (hx : x ∈ history) :
    x.before.Numbered ∧ x.before.step x.action = some (x.after, x.events) :=
  run.invariant_before (numbered_create settings board) (fun taken h => h.step taken) hx

/-- A preparation that fails is open at each step for it. -/
theorem open_of_failure (hid : id ∈ failures history) (hx : x ∈ history)
    (hfor : x.action.preparation? x.before.nextId = some id) :
    x.before.Open id ∧ x.after.Open id := by
  obtain ⟨y, hy, chain, hfailed⟩ := mem_failures.1 hid
  obtain ⟨hnumbered, htaken⟩ := numbered_of_mem run hx
  obtain ⟨hnumbered', htaken'⟩ := numbered_of_mem run hy
  have hgone := gone_of_prepared hnumbered' htaken' hfailed
  -- who has looked for the last time does not fail any more
  have hopen : ∀ {e : Engine} {post}, e.Numbered → Run step e post last → y ∈ post → e.Open id := by
    intro e post numbered rest hpost p hp
    by_contra hconcluded
    have concluded : e.Concluded id := by
      refine ⟨numbered.preparations id p hp, fun q hq => ?_⟩
      obtain rfl := Option.some.inj (hp.symm.trans hq)
      simpa using hconcluded
    simpa using concluded.outcome_of_run rest hpost hfailed
  rcases run.eq_or_later hx hy with rfl | ⟨post, rest, hpost⟩ | ⟨post, rest, hpost⟩
  · have hafter : x.after.Open id := fun p hp => by simp [hgone.2] at hp
    refine ⟨fun p hp => ?_, hafter⟩
    obtain ⟨q, hq, hends | ⟨-, hpanicked⟩⟩ := prepared_of_step htaken hfailed
    · obtain rfl := Option.some.inj (hp.symm.trans hq)
      by_contra hconcluded
      simpa using hends.outcome_of_concluded (by simpa using hconcluded)
    · contradiction
  · exact ⟨hopen hnumbered (.cons htaken rest) (List.mem_cons_of_mem _ hpost),
      hopen (hnumbered.step htaken) rest hpost⟩
  · -- after the failure there is nothing left to do
    have hthere := (rest.invariant_before hgone (fun taken h => h.step taken) hpost).1
    rcases mem_of_preparation? htaken hfor with ⟨heq, -⟩ | hmem
    · exact absurd heq (Nat.ne_of_lt hthere.1)
    · obtain ⟨p, hp⟩ := Table.mem_iff.1 hmem
      simp [hthere.2] at hp

/-- The number of a round is not that of a preparation. -/
theorem not_mem_failures_of_beginCollect (hx : x ∈ history) {level : String}
    (hbegins : x.action = .beginCollect level) : x.before.nextId ∉ failures history := by
  intro hid
  obtain ⟨y, hy, chain, hfailed⟩ := mem_failures.1 hid
  obtain ⟨hnumbered, htaken⟩ := numbered_of_mem run hx
  obtain ⟨hnumbered', htaken'⟩ := numbered_of_mem run hy
  obtain ⟨p, hp, -⟩ := prepared_of_step htaken' hfailed
  have hlt := hnumbered'.preparations _ p hp
  rw [hbegins] at htaken
  obtain ⟨hafter, hevents⟩ := Prod.mk.inj (Option.some.inj htaken)
  rcases run.eq_or_later hx hy with rfl | ⟨post, rest, hpost⟩ | ⟨post, rest, hpost⟩
  · simp [← hevents] at hfailed
  · have hgone : x.after.Gone x.before.nextId := by
      rw [← hafter]
      refine ⟨Nat.lt_succ_self _, Option.eq_none_iff_forall_ne_some.2 fun q hq => ?_⟩
      exact Nat.lt_irrefl _ (hnumbered.preparations _ q hq)
    have hthere := (rest.invariant_before hgone (fun taken h => h.step taken) hpost).1
    simp [hthere.2] at hp
  · have hle := rest.le_before nextId_le_of_step hpost
    have hstep := nextId_le_of_step htaken'
    omega

end Failing

/-! ## Runs without them -/

/-- The step is for one of these preparations. -/
def IsFor (omitted : List Nat) (x : Step Engine EngineAction EngineEvent) : Prop :=
  ∃ id ∈ omitted, x.action.preparation? x.before.nextId = some id

instance (omitted : List Nat) (x : Step Engine EngineAction EngineEvent) :
    Decidable (IsFor omitted x) :=
  inferInstanceAs (Decidable (∃ id ∈ omitted, _))

/-- What is left of a history without these preparations. -/
def without (omitted : List Nat) (history : List (Step Engine EngineAction EngineEvent)) :
    List (Step Engine EngineAction EngineEvent) :=
  history.filter (fun x => ¬ IsFor omitted x)

/-- The collectors that have been made for these preparations. -/
def madeFor (omitted : List Nat) (history : List (Step Engine EngineAction EngineEvent)) :
    List Nat :=
  (history.filter (fun x => IsFor omitted x ∧ x.before.nextCollector < x.after.nextCollector)).map
    (·.before.nextCollector)

/-- What one sees of the second engine is what one sees of the first, and its collectors are asked
for the same. -/
structure Resembles (ρ κ : Renumbering) (e e' : Engine) : Prop where
  /-- The second may know the name of its plan where the first has somebody wait for the live
  state. -/
  planName : ∀ name, e.planName? = some name → e'.planName? = some name
  live : e'.live = e.live.renumber κ
  errors : e'.errors = e.errors
  /-- What each live collector has committed to answer at each level. -/
  committed : ∀ d c, e.live.collectors.get? d = some c →
    (e'.selection (κ c)).live = (e.selection c).live
  /-- What the collector of each task has been asked for, and how far it has got. -/
  asked : ∀ id d, ρ.Keeps id → (e'.task? (ρ id) d).map (fun t => (t.selected, t.stage)) =
    (e.task? id d).map (fun t => (t.selected, t.stage))

/-- The steps are the same but for the numbers, and so is what one sees before and after. -/
structure Matches (ρ κ : Renumbering) (x x' : Step Engine EngineAction EngineEvent) : Prop where
  action : x'.action = x.action.renumber ρ
  events : x'.events = x.events.map (·.renumber ρ κ)
  before : Resembles ρ κ x.before x'.before
  after : Resembles ρ κ x.after x'.after

theorem actions_of_matches {ρ κ : Renumbering}
    {steps spared : List (Step Engine EngineAction EngineEvent)}
    (h : List.Forall₂ (Matches ρ κ) steps spared) :
    spared.map (·.action) = steps.map (·.action.renumber ρ) := by
  induction h with
  | nil => rfl
  | cons hfirst _ ih => rw [List.map_cons, List.map_cons, hfirst.action, ih]

theorem task?_of_carried {ρ κ : Renumbering} (h : ρ.Carries κ.OfRound e.rounds e'.rounds)
    (hid : ρ.Keeps id) (d : String) :
    e'.task? (ρ id) d = (e.task? id d).map (·.renumber κ) := by
  cases hr : e.rounds.get? id with
  | none =>
      have hrel := h id hid
      rw [hr] at hrel
      generalize hr' : e'.rounds.get? (ρ id) = found at hrel
      cases hrel
      rw [task?_of_absent hr', task?_of_absent hr, Option.map_none]
  | some r =>
      obtain ⟨r', hr', hof⟩ := h.get? hid hr
      obtain rfl := hof.eq
      cases hstage : r.stage with
      | queued =>
          have hstage' : (r.renumber κ).stage = .queued := congrArg (·.renumber κ) hstage
          rw [task?_of_queued hr' hstage', task?_of_queued hr hstage, Option.map_none]
      | collecting plan began tasks =>
          have hstage' : (r.renumber κ).stage =
              .collecting plan began (tasks.map (fun _ t => t.renumber κ)) :=
            congrArg (·.renumber κ) hstage
          rw [task?_eq_get? hr' hstage', task?_eq_get? hr hstage, Table.get?_map]

theorem Mirrors.resembles {ρ κ : Renumbering} (h : Mirrors ρ κ e e') : Resembles ρ κ e e' where
  planName := by
    intro name hname
    unfold planName? at hname ⊢
    split at hname
    · next hempty =>
        rw [h.queue, List.isEmpty_iff.1 hempty, List.filterMap_nil, h.live.eq]
        exact hname
    · contradiction
  live := h.live.eq
  errors := h.errors
  committed d c hc := h.selected c (h.live.collectors d c hc)
  asked id d hid := by
    rw [task?_of_carried h.rounds hid, Option.map_map]
    rfl

theorem Mirrors.create (ρ κ : Renumbering) (settings : EngineSettings) (board : Board) :
    Mirrors ρ κ (create settings board) (create settings board) where
  settings := rfl
  live := ⟨rfl, by simp [Engine.create, Engine.say], by simp [Engine.create, Engine.say]⟩
  selected _ _ := rfl
  staged := by simp [Engine.create, Engine.say]
  errors := rfl
  queue := rfl
  preparations := .empty
  rounds := .empty
  kept := by simp [Engine.create, Engine.say, Table.mem_iff]
  single := by simp [Engine.create, Engine.say, Table.mem_iff]
  nextId := ρ.apply_zero.symm
  nextCollector := κ.apply_zero.symm

/-- The step is either one of an omitted preparation, which does not get far, or one that can be
taken without them. -/
structure Separable (ρ κ : Renumbering) (x : Step Engine EngineAction EngineEvent) : Prop where
  idle : x.action.begins = true → x.before.preparations = ∅
  opened : ∀ id ∈ ρ.omitted, x.action.preparation? x.before.nextId = some id →
    x.before.Open id ∧ x.after.Open id
  begun : ∀ level, x.action = .beginCollect level → ρ.Keeps x.before.nextId
  made : x.before.nextCollector < x.after.nextCollector →
    (κ.Keeps x.before.nextCollector ↔ ¬ IsFor ρ.omitted x)

variable {ρ κ : Renumbering} {settings : EngineSettings} {board : Board} {last : Engine}
  {history : List (Step Engine EngineAction EngineEvent)}

variable {x : Step Engine EngineAction EngineEvent}

theorem Separable.omit (hx : Separable ρ κ x) (h : Mirrors ρ κ x.before e')
    (taken : x.before.step x.action = some (x.after, x.events)) (hfor : IsFor ρ.omitted x) :
    Mirrors ρ κ x.after e' := by
  obtain ⟨id, hid, hpreparation⟩ := hfor
  obtain ⟨hopen, hopen'⟩ := hx.opened id hid hpreparation
  refine h.omit (attempts_of_step taken hpreparation hopen hopen') (not_not_intro hid) ?_
    (fun hmade hkeeps => (hx.made hmade).1 hkeeps ⟨id, hid, hpreparation⟩)
  intro k hk
  rcases mem_of_preparation? taken hpreparation with ⟨-, hbegins⟩ | hmem
  · simp [hx.idle hbegins, Table.mem_iff] at hk
  · exact h.single k hk id hmem

theorem Separable.take (hx : Separable ρ κ x) (h : Mirrors ρ κ x.before e')
    (taken : x.before.step x.action = some (x.after, x.events)) (hfor : ¬ IsFor ρ.omitted x) :
    Echoes ρ κ e' x.action (x.after, x.events) :=
  h.step taken hx.idle (fun id hid homitted => hfor ⟨id, homitted, hid⟩) hx.begun
    (fun hmade => (hx.made hmade).2 hfor)

theorem separable_of_run (run : Run step (create settings board) history last)
    (alone : ∀ x ∈ history, x.action.begins = true → x.before.preparations = ∅)
    {omitted : List Nat} (failed : ∀ id ∈ omitted, id ∈ failures history) (hx : x ∈ history) :
    Separable ⟨omitted⟩ ⟨madeFor omitted history⟩ x where
  idle := alone x hx
  opened id hid hfor := open_of_failure run (failed id hid) hx hfor
  begun _ hbegins hmem := not_mem_failures_of_beginCollect run hx hbegins (failed _ hmem)
  made hmade := by
    constructor
    · intro hkeeps hfor
      exact hkeeps (List.mem_map.2 ⟨x, List.mem_filter.2 ⟨hx, by simp [hfor, hmade]⟩, rfl⟩)
    · intro hfor hmem
      obtain ⟨y, hy, same⟩ := List.mem_map.1 hmem
      obtain ⟨hy, hyfor⟩ := List.mem_filter.1 hy
      simp only [decide_eq_true_eq] at hyfor
      -- two steps at which a collector is made make different ones
      have hsame : y = x := run.eq_of_grows nextCollector_le_of_step hx hy hmade hyfor.2 same
      exact hfor (hsame ▸ hyfor.1)

/-- The run without the omitted preparations, step by step beside the one with them. -/
theorem mirrored_of_run (run : Run step (create settings board) history last)
    (separable : ∀ x ∈ history, Separable ρ κ x) :
    ∃ spared last', Run step (create settings board) spared last' ∧
      List.Forall₂ (Matches ρ κ) (without ρ.omitted history) spared ∧ Mirrors ρ κ last last' := by
  induction run with
  | nil => exact ⟨[], _, .nil, .nil, .create ρ κ settings board⟩
  | @snoc history s s' action events run taken ih =>
      obtain ⟨spared, last', run', hmatches, h⟩ :=
        ih (fun x hx => separable x (List.mem_append_left _ hx))
      have hx := separable ⟨s, action, s', events⟩ (by simp)
      by_cases hfor : IsFor ρ.omitted ⟨s, action, s', events⟩
      · refine ⟨spared, last', run', ?_, hx.omit h taken hfor⟩
        simpa [without, hfor] using hmatches
      · obtain ⟨e₁', hstep, h'⟩ := hx.take h taken hfor
        refine ⟨spared ++ [⟨last', action.renumber ρ, e₁', events.map (·.renumber ρ κ)⟩], e₁',
          run'.snoc hstep, ?_, h'⟩
        have hlast : Matches ρ κ ⟨s, action, s', events⟩
            ⟨last', action.renumber ρ, e₁', events.map (·.renumber ρ κ)⟩ :=
          ⟨rfl, rfl, h.resembles, h'.resembles⟩
        simpa [without, hfor] using List.rel_append hmatches (.cons hlast .nil)

/--
Suppose that preparations come one at a time, and leave out of a run some of
those that return an error.  What is left can happen as well, the same actions
with the numbers that they then have, and it goes in only one way.  Up to the
numbers each of its steps has the events that it had, among them the collectors
asked for and reused, the cleanups and the batches, and before and after it the
live state, the errors, what the live collectors have committed to and what those
at work have been asked for are what they were.  The steps left out change none of
these, run no hook and no cleanup and commit nothing.
-/
theorem same_without_failures (run : Run step (create settings board) history last)
    (alone : ∀ x ∈ history, x.action.begins = true → x.before.preparations = ∅)
    {omitted : List Nat} (failed : ∀ id ∈ omitted, id ∈ failures history) :
    (∀ x ∈ history, IsFor omitted x → x.after.live = x.before.live ∧
      x.after.errors = x.before.errors ∧
      (∀ c, (x.after.selection c).live = (x.before.selection c).live) ∧
      x.after.rounds = x.before.rounds ∧ ∀ event ∈ x.events, event.isAttempt = true) ∧
    (∃ spared last', Run step (create settings board) spared last' ∧
      spared.map (·.action) =
        (without omitted history).map (·.action.renumber (Renumbering.mk omitted))) ∧
    ∀ spared last', Run step (create settings board) spared last' →
      spared.map (·.action) =
        (without omitted history).map (·.action.renumber (Renumbering.mk omitted)) →
      List.Forall₂ (Matches ⟨omitted⟩ ⟨madeFor omitted history⟩) (without omitted history) spared ∧
        Resembles ⟨omitted⟩ ⟨madeFor omitted history⟩ last last' := by
  have separable := fun x (hx : x ∈ history) => separable_of_run run alone failed hx
  obtain ⟨spared, last', run', hmatches, h⟩ := mirrored_of_run run separable
  have hactions : spared.map (·.action) =
      (without omitted history).map (·.action.renumber (Renumbering.mk omitted)) :=
    actions_of_matches hmatches
  refine ⟨?_, ⟨spared, last', run', hactions⟩, ?_⟩
  · rintro x hx ⟨id, hid, hfor⟩
    obtain ⟨hopen, hopen'⟩ := open_of_failure run (failed id hid) hx hfor
    have attempts := attempts_of_step (numbered_of_mem run hx).2 hfor hopen hopen'
    exact ⟨attempts.live, attempts.errors, attempts.selected, attempts.rounds, attempts.events⟩
  · intro other last'' run'' hsame
    obtain ⟨rfl, rfl⟩ := run'.eq_of_actions run'' (hsame.trans hactions.symm)
    exact ⟨hmatches, h.resembles⟩

def twoDomains (name : String) : Plan :=
  .ofLevels name "inline" (.ofList [("kpi", {
    freq := "1s"
    collect := .ofList [("cpu", { metrics := ["load"] }), ("disk", {})] })])

/-- The second preparation stages another selection in the live collector and has a new one made,
which then fails. -/
def failureAfterStaging : List EngineAction :=
  [.beginPrepare (onePlan "a" "usage") false, .pinged 0 .answered, .copyLive 0,
    .visit 0 .created false, .collectorPrepared 0 (.prepared true), .conclude 0, .swap 0 .all,
    .cleanUp 0 none, .prune 0, .beginPrepare (twoDomains "b") false, .pinged 1 .answered,
    .copyLive 1, .visit 1 .created false, .collectorPrepared 1 (.prepared true),
    .visit 1 .created false, .collectorPrepared 1 (.failed ["refused"]), .beginCollect "kpi",
    .enter 2 .epoch, .startTask 2 "cpu", .finishTask 2 "cpu" (.values []), .close 2 .epoch,
    .beginPrepare (twoDomains "c") false, .pinged 3 .answered, .copyLive 3, .visit 3 .created false,
    .collectorPrepared 3 (.prepared false), .visit 3 .created false,
    .collectorPrepared 3 (.prepared false), .conclude 3, .swap 3 .all, .cleanUp 3 none, .prune 3]

def runWithAttempt : List (Step Engine EngineAction EngineEvent) × Engine :=
  Run.follow step (create {} ∅) failureAfterStaging

/-- The same without the second preparation. -/
def failureSpared : List EngineAction :=
  [.beginPrepare (onePlan "a" "usage") false, .pinged 0 .answered, .copyLive 0,
    .visit 0 .created false, .collectorPrepared 0 (.prepared true), .conclude 0, .swap 0 .all,
    .cleanUp 0 none, .prune 0, .beginCollect "kpi",
    .enter 1 .epoch, .startTask 1 "cpu", .finishTask 1 "cpu" (.values []), .close 1 .epoch,
    .beginPrepare (twoDomains "c") false, .pinged 2 .answered, .copyLive 2, .visit 2 .created false,
    .collectorPrepared 2 (.prepared false), .visit 2 .created false,
    .collectorPrepared 2 (.prepared false), .conclude 2, .swap 2 .all, .cleanUp 2 none, .prune 2]

def runWithoutAttempt : List (Step Engine EngineAction EngineEvent) × Engine :=
  Run.follow step (create {} ∅) failureSpared

/-- What a collector is asked for at a step that starts it. -/
def asks? (x : Step Engine EngineAction EngineEvent) : Option Selected :=
  match x.action with
  | .startTask id domain => (x.after.task? id domain).bind (·.selected)
  | _ => none

theorem same_without_failures_failureAfterStaging :
    Run step (create {} ∅) runWithAttempt.1 runWithAttempt.2 ∧
      (∀ x ∈ runWithAttempt.1, x.action.begins = true → x.before.preparations = ∅) ∧
      (∀ id ∈ [1], id ∈ failures runWithAttempt.1) ∧
      Run step (create {} ∅) runWithoutAttempt.1 runWithoutAttempt.2 ∧
      List.Forall₂ (Matches ⟨[1]⟩ ⟨[1]⟩) (without [1] runWithAttempt.1) runWithoutAttempt.1 ∧
      Resembles ⟨[1]⟩ ⟨[1]⟩ runWithAttempt.2 runWithoutAttempt.2 ∧
      runWithAttempt.1.filterMap asks? = [{ metrics := ["usage"] }] ∧
      runWithoutAttempt.1.filterMap asks? = [{ metrics := ["usage"] }] := by
  have hrun : Run step (create {} ∅) runWithAttempt.1 runWithAttempt.2 := Run.of_follow ..
  have hspared : Run step (create {} ∅) runWithoutAttempt.1 runWithoutAttempt.2 := Run.of_follow ..
  have halone : ∀ x ∈ runWithAttempt.1, x.action.begins = true → x.before.preparations = ∅ := by
    decide +kernel
  have hfailed : ∀ id ∈ [1], id ∈ failures runWithAttempt.1 := by decide +kernel
  have hmade : madeFor [1] runWithAttempt.1 = [1] := by decide +kernel
  have hactions : runWithoutAttempt.1.map (·.action) =
      (without [1] runWithAttempt.1).map (·.action.renumber (Renumbering.mk [1])) := by
    decide +kernel
  obtain ⟨-, -, hsame⟩ := same_without_failures hrun halone hfailed
  obtain ⟨hmatches, hresembles⟩ := hsame _ _ hspared hactions
  rw [hmade] at hmatches hresembles
  exact ⟨hrun, halone, hfailed, hspared, hmatches, hresembles, by decide +kernel, by decide +kernel⟩

end Engine

end Cadence
