import Cadence.Engine.Step
import Cadence.Table.Lemmas

/-!
# What each action of the engine does

An action is possible only at certain stages, and then it leads to one state
with one list of events.  Each lemma says so for one action: what must have held
and what has come of it.  Proofs about runs of the engine use these lemmas and
look into no action themselves.
-/

namespace Cadence

/-- How a preparation ends if a collector cannot be made. -/
def Creation.outcome? (domain : String) : Creation → Option PrepareOutcome
  | .created => none
  | .failed chain => some (.failed (.within s!"creating {domain} collector" chain))
  | .panicked => some .panicked

/-- How a preparation ends if a collector cannot prepare. -/
def CollectorPrepared.outcome? (domain : String) : CollectorPrepared → Option PrepareOutcome
  | .prepared _ => none
  | .failed chain => some (.failed (.within s!"preparing {domain} collector" chain))
  | .panicked => some .panicked

namespace Engine

variable {e : Engine} {id : Nat} {next : Engine × List EngineEvent}

theorem withPreparation_eq_some {step : Preparation → Next} :
    e.withPreparation id step = some next ↔
      ∃ p, e.preparations.get? id = some p ∧ step p = some next :=
  Option.bind_eq_some_iff

theorem withRound_eq_some {step : EngineRound → Next} :
    e.withRound id step = some next ↔ ∃ r, e.rounds.get? id = some r ∧ step r = some next :=
  Option.bind_eq_some_iff

/-! ## Preparations -/

theorem cancelPreparation_eq_some (h : e.cancelPreparation id = some next) :
    ∃ p, e.preparations.get? id = some p ∧
      next = (e.setPreparation id { p with cancelled := true }, []) := by
  obtain ⟨p, hp, hnext⟩ := withPreparation_eq_some.1 h
  exact ⟨p, hp, (Option.some.inj hnext).symm⟩

theorem pinged_eq_some {result : PingResult} (h : e.pinged id result = some next) :
    ∃ p attempt, e.preparations.get? id = some p ∧ p.stage = .connecting attempt ∧
      (result = .answered ∧
          next = ((e.setPreparation id { p with stage := .copying }).enqueue (.copy id), []) ∨
        result ≠ .answered ∧
          next = ((e.say s!"connecting (attempt {attempt})").setPreparation id
            { p with stage := .retrying attempt }, [])) := by
  obtain ⟨p, hp, hnext⟩ := withPreparation_eq_some.1 h
  split at hnext
  · next attempt hstage =>
      exact ⟨p, attempt, hp, hstage, Or.inl ⟨rfl, (Option.some.inj hnext).symm⟩⟩
  · next _ attempt hstage hresult =>
      exact ⟨p, attempt, hp, hstage, Or.inr ⟨by simpa using hresult,
        (Option.some.inj hnext).symm⟩⟩
  · contradiction

theorem retry_eq_some (h : e.retry id = some next) :
    ∃ p attempt, e.preparations.get? id = some p ∧ p.stage = .retrying attempt ∧
      next = (e.setPreparation id { p with stage := .connecting (attempt + 1) }, []) := by
  obtain ⟨p, hp, hnext⟩ := withPreparation_eq_some.1 h
  split at hnext
  · next attempt hstage => exact ⟨p, attempt, hp, hstage, (Option.some.inj hnext).symm⟩
  · contradiction

theorem noticeCancel_eq_some (h : e.noticeCancel id = some next) :
    ∃ p, e.preparations.get? id = some p ∧ p.cancelled = true ∧
      ((∃ attempt, p.stage = .connecting attempt ∨ p.stage = .retrying attempt) ∨
        ∃ domain collector rest, p.stage = .preparing domain collector rest) ∧
      next = e.endPreparation id .cancelled := by
  obtain ⟨p, hp, hnext⟩ := withPreparation_eq_some.1 h
  split at hnext
  · next attempt hcancelled hstage =>
      exact ⟨p, hp, hcancelled, Or.inl ⟨attempt, Or.inl hstage⟩, (Option.some.inj hnext).symm⟩
  · next attempt hcancelled hstage =>
      exact ⟨p, hp, hcancelled, Or.inl ⟨attempt, Or.inr hstage⟩, (Option.some.inj hnext).symm⟩
  · next domain collector rest hcancelled hstage =>
      exact ⟨p, hp, hcancelled, Or.inr ⟨domain, collector, rest, hstage⟩,
        (Option.some.inj hnext).symm⟩
  · contradiction

theorem copyLive_eq_some (h : e.copyLive id = some next) :
    ∃ p, e.preparations.get? id = some p ∧ p.stage = .copying ∧ e.admits (.copy id) = true ∧
      next = ((e.dequeue (.copy id)).setPreparation id
        { p with known := e.live.collectors, stage := .visiting p.plan.domains }, []) := by
  obtain ⟨p, hp, hnext⟩ := withPreparation_eq_some.1 h
  split at hnext
  · next hturn => exact ⟨p, hp, hturn.1, hturn.2, (Option.some.inj hnext).symm⟩
  · contradiction

theorem askCollector_eq_some {p : Preparation} {domain : String} {collector : Nat}
    {rest : List String} {noticed : Bool}
    (h : e.askCollector id p domain collector rest noticed = some next) :
    (noticed = true ∧ p.cancelled = true ∧ next = e.endPreparation id .cancelled) ∨
      (noticed = false ∧
        next = ((e.stageSelection collector p.plan domain).setPreparation id
          { p with stage := .preparing domain collector rest },
          [.preparing domain p.plan.name collector])) := by
  rw [askCollector] at h
  split at h
  · next hnoticed =>
      split at h
      · next hcancelled => exact Or.inl ⟨hnoticed, hcancelled, (Option.some.inj h).symm⟩
      · contradiction
  · next hnoticed =>
      exact Or.inr ⟨Bool.not_eq_true _ ▸ hnoticed, (Option.some.inj h).symm⟩

def requested (p : Preparation) (domain : String) : List EngineEvent :=
  if (p.known.get? domain).isSome then [] else [.creating domain]

theorem visit_eq_some {creation : Creation} {noticed : Bool}
    (h : e.visit id creation noticed = some next) :
    ∃ p domain rest made, e.preparations.get? id = some p ∧ p.stage = .visiting (domain :: rest) ∧
      (((made = e.nextCollector ∨ made = e.nextCollector + 1) ∧ ∃ outcome,
          (p.cancelled = true ∧ outcome = .cancelled ∨ creation.outcome? domain = some outcome) ∧
          next = ({ e with nextCollector := made, preparations := e.preparations.erase id },
            requested p domain ++ [.prepared id outcome])) ∨
        ∃ collector,
          (p.known.get? domain = some collector ∧ made = e.nextCollector ∨
            p.known.get? domain = none ∧ collector = e.nextCollector ∧ made = e.nextCollector + 1) ∧
          next = ((({ e with nextCollector := made }).stageSelection collector p.plan
            domain).setPreparation id { p with stage := .preparing domain collector rest },
            requested p domain ++ [.preparing domain p.plan.name collector])) := by
  obtain ⟨p, hp, hnext⟩ := withPreparation_eq_some.1 h
  split at hnext
  · next domain rest hstage =>
      refine ⟨p, domain, rest, ?_⟩
      split at hnext
      · next collector hknown =>
          have hrequested : requested p domain = [] :=
            if_pos (Option.isSome_of_eq_some hknown)
          refine ⟨e.nextCollector, hp, hstage, ?_⟩
          rw [hrequested]
          rcases askCollector_eq_some hnext with ⟨-, hcancelled, rfl⟩ | ⟨-, rfl⟩
          · exact Or.inl ⟨.inl rfl, .cancelled, .inl ⟨hcancelled, rfl⟩, rfl⟩
          · exact Or.inr ⟨collector, Or.inl ⟨hknown, rfl⟩, rfl⟩
      · next hknown =>
          have hrequested : requested p domain = [.creating domain] :=
            if_neg (Option.not_isSome_iff_eq_none.2 hknown)
          rw [hrequested]
          cases creation with
          | failed chain =>
              exact ⟨e.nextCollector, hp, hstage, Or.inl ⟨.inl rfl, _, .inr rfl,
                (Option.some.inj hnext).symm⟩⟩
          | panicked =>
              exact ⟨e.nextCollector, hp, hstage, Or.inl ⟨.inl rfl, _, .inr rfl,
                (Option.some.inj hnext).symm⟩⟩
          | created =>
              obtain ⟨asked, hasked, rfl⟩ := Option.map_eq_some_iff.1 hnext
              refine ⟨e.nextCollector + 1, hp, hstage, ?_⟩
              rcases askCollector_eq_some hasked with ⟨-, hcancelled, rfl⟩ | ⟨-, rfl⟩
              · exact Or.inl ⟨.inr rfl, .cancelled, .inl ⟨hcancelled, rfl⟩, rfl⟩
              · exact Or.inr ⟨e.nextCollector, Or.inr ⟨hknown, rfl, rfl⟩, rfl⟩
  · contradiction

theorem collectorPrepared_eq_some {result : CollectorPrepared}
    (h : e.collectorPrepared id result = some next) :
    ∃ p domain collector rest, e.preparations.get? id = some p ∧
      p.stage = .preparing domain collector rest ∧
      ((∃ outcome, result.outcome? domain = some outcome ∧ next = e.endPreparation id outcome) ∨
        ∃ cleanup, result = .prepared cleanup ∧
          next = (e.setPreparation id { p with
            collectors := p.collectors.insert domain collector
            cleanups := p.cleanups ++ (if cleanup then [⟨domain, p.plan.name⟩] else [])
            stage := .visiting rest }, [])) := by
  obtain ⟨p, hp, hnext⟩ := withPreparation_eq_some.1 h
  split at hnext
  · next domain collector rest hstage =>
      refine ⟨p, domain, collector, rest, hp, hstage, ?_⟩
      cases result with
      | failed chain => exact Or.inl ⟨_, rfl, (Option.some.inj hnext).symm⟩
      | panicked => exact Or.inl ⟨_, rfl, (Option.some.inj hnext).symm⟩
      | prepared cleanup => exact Or.inr ⟨cleanup, rfl, (Option.some.inj hnext).symm⟩
  · contradiction

theorem conclude_eq_some (h : e.conclude id = some next) :
    ∃ p, e.preparations.get? id = some p ∧ p.stage = .visiting [] ∧
      (p.cancelled = true ∧ next = e.endPreparation id .cancelled ∨
        p.cancelled = false ∧
          next = ((e.setPreparation id { p with stage := .swapping }).enqueue (.swap id),
            [.before id])) := by
  obtain ⟨p, hp, hnext⟩ := withPreparation_eq_some.1 h
  split at hnext
  · next hstage =>
      refine ⟨p, hp, hstage, ?_⟩
      split at hnext
      · next hcancelled => exact Or.inl ⟨hcancelled, (Option.some.inj hnext).symm⟩
      · next hcancelled =>
          exact Or.inr ⟨Bool.not_eq_true _ ▸ hcancelled, (Option.some.inj hnext).symm⟩
  · contradiction

theorem swap_all_eq_some (h : e.swap id .all = some next) :
    ∃ p, e.preparations.get? id = some p ∧ p.stage = .swapping ∧ e.admits (.swap id) = true ∧
      next = ({ ((e.dequeue (.swap id)).commitAll p.collectors).setPreparation id
          { p with stage := .swapped e.live.cleanups } with
        live := .ofPlan p.plan p.collectors p.cleanups }, commitEvents p.collectors) := by
  obtain ⟨p, hp, hnext⟩ := withPreparation_eq_some.1 h
  split at hnext
  · next hturn => exact ⟨p, hp, hturn.1, hturn.2, (Option.some.inj hnext).symm⟩
  · contradiction

theorem swap_only_eq_some {domains : List String} (h : e.swap id (.only domains) = some next) :
    ∃ p done, e.preparations.get? id = some p ∧ p.stage = .swapping ∧
      next = ({ (e.dequeue (.swap id)).commitAll done with
          preparations := e.preparations.erase id },
        commitEvents done ++ [.prepared id .panicked]) := by
  obtain ⟨p, hp, hnext⟩ := withPreparation_eq_some.1 h
  split at hnext
  · next hturn => exact ⟨p, _, hp, hturn.1, (Option.some.inj hnext).symm⟩
  · contradiction

theorem cleanUp_eq_some {finished : Option Nat} (h : e.cleanUp id finished = some next) :
    ∃ p cleanups, e.preparations.get? id = some p ∧ p.stage = .swapped cleanups ∧
      (finished = none ∧
          next = ((e.setPreparation id { p with stage := .pruning }).enqueue (.prune id),
            .after id :: cleanups.map .cleaning) ∨
        ∃ n, finished = some n ∧ n < cleanups.length ∧
          next = ((e.endPreparation id .panicked).1,
            .after id :: (cleanups.take n).map .cleaning ++ [.prepared id .panicked])) := by
  obtain ⟨p, hp, hnext⟩ := withPreparation_eq_some.1 h
  split at hnext
  · next cleanups hstage =>
      refine ⟨p, cleanups, hp, hstage, ?_⟩
      cases finished with
      | none => exact Or.inl ⟨rfl, (Option.some.inj hnext).symm⟩
      | some n =>
          simp only at hnext
          split at hnext
          · next hlt => exact Or.inr ⟨n, rfl, hlt, (Option.some.inj hnext).symm⟩
          · contradiction
  · contradiction

theorem prune_eq_some (h : e.prune id = some next) :
    ∃ p, e.preparations.get? id = some p ∧ p.stage = .pruning ∧ e.admits (.prune id) = true ∧
      next = (({ e.dequeue (.prune id) with
          errors := e.errors.filter (fun domain _ => e.live.collectors.contains domain) }.say
        s!"ready: plan {p.plan.name}").endPreparation id .ready) := by
  obtain ⟨p, hp, hnext⟩ := withPreparation_eq_some.1 h
  split at hnext
  · next hturn => exact ⟨p, hp, hturn.1, hturn.2, (Option.some.inj hnext).symm⟩
  · contradiction

theorem dropPreparation_eq_some (h : e.dropPreparation id = some next) :
    ∃ p, e.preparations.get? id = some p ∧ p.stage.waits = true ∧
      next = ({ ((e.dequeue (.copy id)).dequeue (.swap id)).dequeue (.prune id) with
        preparations := e.preparations.erase id }, []) := by
  obtain ⟨p, hp, hnext⟩ := withPreparation_eq_some.1 h
  split at hnext
  · next hwaits => exact ⟨p, hp, hwaits, (Option.some.inj hnext).symm⟩
  · contradiction

/-! ## Rounds -/

theorem enter_eq_some {now : Utc} (h : e.enter id now = some next) :
    ∃ r, e.rounds.get? id = some r ∧ r.stage = .queued ∧ e.admits (.round id) = true ∧
      (((e.live.levels.get? r.level).getD ∅).isEmpty = true ∧
          next = (e.dropRound id, [.collected id (e.emptyBatch r.level now)]) ∨
        ((e.live.levels.get? r.level).getD ∅).isEmpty = false ∧
          next = ((e.dequeue (.round id)).setRound id { r with
            stage := .collecting e.livePlanName now (((e.live.levels.get? r.level).getD ∅).map
              (fun _ collector => ({ collector } : RoundTask)))
            permits := e.settings.concurrency }, [])) := by
  obtain ⟨r, hr, hnext⟩ := withRound_eq_some.1 h
  split at hnext
  · next hturn =>
      refine ⟨r, hr, hturn.1, hturn.2, ?_⟩
      simp only at hnext
      split at hnext
      · next hempty => exact Or.inl ⟨hempty, (Option.some.inj hnext).symm⟩
      · next hempty =>
          exact Or.inr ⟨Bool.not_eq_true _ ▸ hempty, (Option.some.inj hnext).symm⟩
  · contradiction

theorem withTask_eq_some {domain : String}
    {change : EngineRound → RoundTask → Option (RoundTask × Nat)}
    (h : e.withTask id domain change = some next) :
    ∃ r plan began tasks task task' permits, e.rounds.get? id = some r ∧
      r.stage = .collecting plan began tasks ∧ tasks.get? domain = some task ∧
      change r task = some (task', permits) ∧
      next = (e.setRound id
        { r with stage := .collecting plan began (tasks.insert domain task'), permits }, []) := by
  obtain ⟨r, hr, hnext⟩ := withRound_eq_some.1 h
  split at hnext
  · contradiction
  · next plan began tasks hstage =>
      obtain ⟨task, htask, hnext⟩ := Option.bind_eq_some_iff.1 hnext
      obtain ⟨⟨task', permits⟩, hchange, hnext⟩ := Option.bind_eq_some_iff.1 hnext
      exact ⟨r, plan, began, tasks, task, task', permits, hr, hstage, htask, hchange,
        (Option.some.inj hnext).symm⟩

theorem startTask_eq_some {domain : String} (h : e.startTask id domain = some next) :
    ∃ r plan began tasks task, e.rounds.get? id = some r ∧
      r.stage = .collecting plan began tasks ∧ tasks.get? domain = some task ∧
      task.stage = .waiting ∧ 0 < r.permits ∧
      next = (e.setRound id { r with
        stage := .collecting plan began (tasks.insert domain { task with
          stage := .collecting
          selected := e.selections[task.collector]?.bind (·.get? r.level) })
        permits := r.permits - 1 }, []) := by
  obtain ⟨r, plan, began, tasks, task, task', permits, hr, hstage, htask, hchange, hnext⟩ :=
    withTask_eq_some h
  split at hchange
  · next hfree =>
      cases hchange
      exact ⟨r, plan, began, tasks, task, hr, hstage, htask, hfree.1, hfree.2, hnext⟩
  · contradiction

theorem finishTask_eq_some {domain : String} {result : CollectResult}
    (h : e.finishTask id domain result = some next) :
    ∃ r plan began tasks task, e.rounds.get? id = some r ∧
      r.stage = .collecting plan began tasks ∧ tasks.get? domain = some task ∧
      task.stage = .collecting ∧ result ≠ .died ∧
      next = (e.setRound id { r with
        stage := .collecting plan began (tasks.insert domain { task with stage := .finished result })
        permits := r.permits + 1 }, []) := by
  obtain ⟨r, plan, began, tasks, task, task', permits, hr, hstage, htask, hchange, hnext⟩ :=
    withTask_eq_some h
  split at hchange
  · next hended =>
      cases hchange
      exact ⟨r, plan, began, tasks, task, hr, hstage, htask, hended.1, hended.2, hnext⟩
  · contradiction

theorem loseTask_eq_some {domain : String} (h : e.loseTask id domain = some next) :
    ∃ r plan began tasks task, e.rounds.get? id = some r ∧
      r.stage = .collecting plan began tasks ∧ tasks.get? domain = some task ∧
      task.result? = none ∧
      next = (e.setRound id { r with
        stage := .collecting plan began (tasks.insert domain { task with stage := .finished .died })
        permits := if task.isCollecting then r.permits + 1 else r.permits }, []) := by
  obtain ⟨r, plan, began, tasks, task, task', permits, hr, hstage, htask, hchange, hnext⟩ :=
    withTask_eq_some h
  split at hchange
  · next hopen =>
      cases hchange
      exact ⟨r, plan, began, tasks, task, hr, hstage, htask, Option.isNone_iff_eq_none.1 hopen, hnext⟩
  · contradiction

theorem close_eq_some {now : Utc} (h : e.close id now = some next) :
    ∃ r plan began tasks, e.rounds.get? id = some r ∧ r.stage = .collecting plan began tasks ∧
      (∀ domain task, tasks.get? domain = some task → task.result?.isSome = true) ∧
      next = ((e.dropRound id).record (e.batchOf r.level plan began now tasks).values
          (e.batchOf r.level plan began now tasks).errors,
        [.collected id (e.batchOf r.level plan began now tasks)]) := by
  obtain ⟨r, hr, hnext⟩ := withRound_eq_some.1 h
  split at hnext
  · contradiction
  · next plan began tasks hstage =>
      split at hnext
      · next hended =>
          refine ⟨r, plan, began, tasks, hr, hstage, ?_, (Option.some.inj hnext).symm⟩
          intro domain task htask
          exact List.all_eq_true.1 hended task (Table.mem_values.2 ⟨domain, htask⟩)
      · contradiction

theorem step_dropRound_eq_some (h : e.step (.dropRound id) = some next) :
    id ∈ e.rounds ∧ next = (e.dropRound id, []) := by
  simp only [step] at h
  split at h
  · next hround => exact ⟨hround, (Option.some.inj h).symm⟩
  · contradiction

/-- Recording changes nothing that clearing and setting an error leave alone. -/
theorem record_eq {γ : Type} (view : Engine → γ)
    (hclear : ∀ e domain, view (clearError e domain) = view e)
    (hset : ∀ e domain error, view (setError e domain error) = view e) (e : Engine)
    (values : Table String (List MetricValue)) (errors : Table String String) :
    view (e.record values errors) = view e := by
  have cleared : ∀ (domains : List String) (e : Engine),
      view (domains.foldl clearError e) = view e := by
    intro domains
    induction domains with
    | nil => intro e; rfl
    | cons first rest ih => intro e; rw [List.foldl_cons, ih, hclear]
  have set : ∀ (errors : List (String × String)) (e : Engine),
      view (errors.foldl (fun e x => e.setError x.1 x.2) e) = view e := by
    intro errors
    induction errors with
    | nil => intro e; rfl
    | cons first rest ih => intro e; rw [List.foldl_cons, ih, hset]
  exact (set _ _).trans (cleared _ _)

section

variable (e : Engine) (values : Table String (List MetricValue)) (errors : Table String String)

private theorem clearError_eq {γ : Type} (view : Engine → γ)
    (h : ∀ (e : Engine) errors board, view { e with errors, board } = view e) (e : Engine)
    (domain : String) : view (e.clearError domain) = view e := by
  rw [clearError]
  split
  · exact h e _ _
  · rfl

@[simp] theorem record_live : (e.record values errors).live = e.live :=
  record_eq (·.live) (clearError_eq _ fun _ _ _ => rfl) (fun _ _ _ => rfl) e values errors

@[simp] theorem record_selections : (e.record values errors).selections = e.selections :=
  record_eq (·.selections) (clearError_eq _ fun _ _ _ => rfl) (fun _ _ _ => rfl) e values errors

@[simp] theorem record_preparations : (e.record values errors).preparations = e.preparations :=
  record_eq (·.preparations) (clearError_eq _ fun _ _ _ => rfl) (fun _ _ _ => rfl) e values errors

@[simp] theorem record_settings : (e.record values errors).settings = e.settings :=
  record_eq (·.settings) (clearError_eq _ fun _ _ _ => rfl) (fun _ _ _ => rfl) e values errors

@[simp] theorem record_rounds : (e.record values errors).rounds = e.rounds :=
  record_eq (·.rounds) (clearError_eq _ fun _ _ _ => rfl) (fun _ _ _ => rfl) e values errors

@[simp] theorem record_nextId : (e.record values errors).nextId = e.nextId :=
  record_eq (·.nextId) (clearError_eq _ fun _ _ _ => rfl) (fun _ _ _ => rfl) e values errors

@[simp] theorem record_nextCollector : (e.record values errors).nextCollector = e.nextCollector :=
  record_eq (·.nextCollector) (clearError_eq _ fun _ _ _ => rfl) (fun _ _ _ => rfl) e values errors

/-- The engine without what rounds record. -/
private def unrecorded (e : Engine) : Engine := { e with errors := ∅, board := ∅ }

/-- Recording changes the errors and the board, and nothing else. -/
theorem record_frame : e.record values errors =
    { e with
      errors := (e.record values errors).errors
      board := (e.record values errors).board } := by
  have hframe : (e.record values errors).unrecorded = e.unrecorded :=
    record_eq unrecorded (clearError_eq _ fun _ _ _ => rfl) (fun _ _ _ => rfl) e values errors
  exact congrArg (fun other : Engine => { other with
    errors := (e.record values errors).errors
    board := (e.record values errors).board }) hframe

end

/-! ## What the two kinds of action leave alone -/

end Engine

/-- Whether an action belongs to a round, and not to a preparation. -/
def EngineAction.isOfRound : EngineAction → Bool
  | beginCollect _ | enter .. | startTask .. | finishTask .. | loseTask .. | close .. | dropRound _ =>
      true
  | _ => false

namespace Engine

variable {e e' : Engine} {id : Nat} {action : EngineAction} {events : List EngineEvent}

theorem inUse_of_admits_swap (h : e.admits (.swap id) = true) : e.inUse = false := by
  simp only [admits, Ticket.isSwap, if_true, Bool.and_eq_true, Bool.not_eq_true'] at h
  exact h.2

/-- What a step for a preparation leaves alone.  Only a swap touches the live state, and only while
no round uses it; of the board only the line of the engine itself changes. -/
structure Preparing (e e' : Engine) (action : EngineAction) (events : List EngineEvent) : Prop where
  rounds : e'.rounds = e.rounds
  live : e'.live = e.live ∨ e.inUse = false
  collected : ∀ k batch, .collected k batch ∉ events
  nextCollector : e.nextCollector ≤ e'.nextCollector
  errors : (∀ id, action ≠ .prune id) → e'.errors = e.errors
  board : e'.board = e.board ∨ ∃ text, e'.board = (e.say text).board
  unswapped : (∀ id commits, action ≠ .swap id commits) → e'.live = e.live ∧
    (e'.selections = e.selections ∨ ∃ collector plan domain,
      e'.selections = (e.stageSelection collector plan domain).selections) ∧
    ∀ domain c, .committing domain c ∉ events
  settings : e'.settings = e.settings

/-- Most steps leave everything alone but the preparation itself and the queue. -/
theorem Preparing.of_same (hrounds : e'.rounds = e.rounds)
    (hsettings : e'.settings = e.settings) (hlive : e'.live = e.live)
    (hselections : e'.selections = e.selections) (hnext : e'.nextCollector = e.nextCollector)
    (herrors : e'.errors = e.errors)
    (hboard : e'.board = e.board ∨ ∃ text, e'.board = (e.say text).board)
    (hcollected : ∀ k batch, .collected k batch ∉ events)
    (hcommitting : ∀ domain c, .committing domain c ∉ events) : Preparing e e' action events where
  rounds := hrounds
  live := .inl hlive
  collected := hcollected
  nextCollector := Nat.le_of_eq hnext.symm
  errors _ := herrors
  board := hboard
  unswapped _ := ⟨hlive, .inl hselections, hcommitting⟩
  settings := hsettings

theorem preparing_frame (hkind : action.isOfRound = false)
    (taken : e.step action = some (e', events)) : Preparing e e' action events := by
  cases action with
  | beginPrepare plan cancelled =>
      cases taken
      exact .of_same rfl rfl rfl rfl rfl rfl (.inr ⟨_, rfl⟩) (by simp) (by simp)
  | cancel id =>
      obtain ⟨p, -, hnext⟩ := cancelPreparation_eq_some taken
      cases hnext
      exact .of_same rfl rfl rfl rfl rfl rfl (.inl rfl) (by simp) (by simp)
  | pinged id result =>
      obtain ⟨p, attempt, -, -, ⟨-, hnext⟩ | ⟨-, hnext⟩⟩ := pinged_eq_some taken
      · cases hnext
        exact .of_same rfl rfl rfl rfl rfl rfl (.inl rfl) (by simp) (by simp)
      · cases hnext
        exact .of_same rfl rfl rfl rfl rfl rfl (.inr ⟨_, rfl⟩) (by simp) (by simp)
  | retry id =>
      obtain ⟨p, attempt, -, -, hnext⟩ := retry_eq_some taken
      cases hnext
      exact .of_same rfl rfl rfl rfl rfl rfl (.inl rfl) (by simp) (by simp)
  | noticeCancel id =>
      obtain ⟨p, -, -, -, hnext⟩ := noticeCancel_eq_some taken
      cases hnext
      exact .of_same rfl rfl rfl rfl rfl rfl (.inl rfl) (by simp) (by simp)
  | copyLive id =>
      obtain ⟨p, -, -, -, hnext⟩ := copyLive_eq_some taken
      cases hnext
      exact .of_same rfl rfl rfl rfl rfl rfl (.inl rfl) (by simp) (by simp)
  | visit id creation noticed =>
      obtain ⟨p, domain, rest, made, -, -, ⟨hmade, _, -, hnext⟩ | ⟨_, hsource, hnext⟩⟩ :=
        visit_eq_some taken
      · have hle : e.nextCollector ≤ made := by omega
        cases hnext
        refine ⟨rfl, .inl rfl, ?_, hle, fun _ => rfl, .inl rfl, fun _ => ⟨rfl, .inl rfl, ?_⟩, rfl⟩ <;>
          rw [requested] <;> split <;> simp
      · have hle : e.nextCollector ≤ made := by omega
        cases hnext
        refine ⟨rfl, .inl rfl, ?_, hle, fun _ => rfl, .inl rfl,
          fun _ => ⟨rfl, .inr ⟨_, _, _, rfl⟩, ?_⟩, rfl⟩ <;>
          rw [requested] <;> split <;> simp
  | collectorPrepared id result =>
      obtain ⟨p, domain, collector, rest, -, -, ⟨_, -, hnext⟩ | ⟨cleanup, -, hnext⟩⟩ :=
        collectorPrepared_eq_some taken <;> cases hnext <;>
        exact .of_same rfl rfl rfl rfl rfl rfl (.inl rfl) (by simp) (by simp)
  | conclude id =>
      obtain ⟨p, -, -, ⟨-, hnext⟩ | ⟨-, hnext⟩⟩ := conclude_eq_some taken <;> cases hnext <;>
        exact .of_same rfl rfl rfl rfl rfl rfl (.inl rfl) (by simp) (by simp)
  | swap id commits =>
      obtain ⟨p, -, hnext⟩ := withPreparation_eq_some.1 taken
      split at hnext
      · next hturn =>
          have hfree := inUse_of_admits_swap hturn.2
          cases commits <;> cases hnext <;>
            exact ⟨rfl, .inr hfree, by simp [commitEvents], Nat.le_refl _, fun _ => rfl, .inl rfl,
              fun hswap => absurd rfl (hswap id _), rfl⟩
      · contradiction
  | cleanUp id finished =>
      obtain ⟨p, cleanups, -, -, ⟨-, hnext⟩ | ⟨n, -, -, hnext⟩⟩ := cleanUp_eq_some taken <;>
        cases hnext <;>
        exact .of_same rfl rfl rfl rfl rfl rfl (.inl rfl) (by simp [-List.map_take])
          (by simp [-List.map_take])
  | prune id =>
      obtain ⟨p, -, -, -, hnext⟩ := prune_eq_some taken
      cases hnext
      exact ⟨rfl, .inl rfl, by simp, Nat.le_refl _, fun hprune => absurd rfl (hprune id),
        .inr ⟨_, rfl⟩, fun _ => ⟨rfl, .inl rfl, by simp⟩, rfl⟩
  | dropPreparation id =>
      obtain ⟨p, -, -, hnext⟩ := dropPreparation_eq_some taken
      cases hnext
      exact .of_same rfl rfl rfl rfl rfl rfl (.inl rfl) (by simp) (by simp)
  | _ => contradiction

theorem round_frame (hkind : action.isOfRound = true) (taken : e.step action = some (e', events)) :
    e'.live = e.live ∧ e'.preparations = e.preparations ∧ e'.selections = e.selections ∧
      e'.nextCollector = e.nextCollector ∧ e'.settings = e.settings ∧
      ∀ domain c, .committing domain c ∉ events := by
  cases action with
  | beginCollect level =>
      cases taken
      exact ⟨rfl, rfl, rfl, rfl, rfl, by simp⟩
  | enter id now =>
      obtain ⟨r, -, -, -, ⟨-, hnext⟩ | ⟨-, hnext⟩⟩ := enter_eq_some taken <;>
        cases hnext <;> exact ⟨rfl, rfl, rfl, rfl, rfl, by simp⟩
  | startTask id domain =>
      obtain ⟨r, plan, began, tasks, task, -, -, -, -, -, hnext⟩ := startTask_eq_some taken
      cases hnext
      exact ⟨rfl, rfl, rfl, rfl, rfl, by simp⟩
  | finishTask id domain result =>
      obtain ⟨r, plan, began, tasks, task, -, -, -, -, -, hnext⟩ := finishTask_eq_some taken
      cases hnext
      exact ⟨rfl, rfl, rfl, rfl, rfl, by simp⟩
  | loseTask id domain =>
      obtain ⟨r, plan, began, tasks, task, -, -, -, -, hnext⟩ := loseTask_eq_some taken
      cases hnext
      exact ⟨rfl, rfl, rfl, rfl, rfl, by simp⟩
  | close id now =>
      obtain ⟨r, plan, began, tasks, -, -, -, hnext⟩ := close_eq_some taken
      cases hnext
      exact ⟨record_live .., record_preparations .., record_selections .., record_nextCollector ..,
        record_settings .., by simp⟩
  | dropRound id =>
      cases (step_dropRound_eq_some taken).2
      exact ⟨rfl, rfl, rfl, rfl, rfl, by simp⟩
  | _ => contradiction

/-- Of a step for a round others learn the batch, if it ends the round. -/
theorem events_of_round (hkind : action.isOfRound = true)
    (taken : e.step action = some (e', events)) :
    events = [] ∨ ∃ id batch, events = [.collected id batch] := by
  cases action with
  | beginCollect level =>
      cases taken
      exact .inl rfl
  | enter id now =>
      obtain ⟨r, -, -, -, ⟨-, hnext⟩ | ⟨-, hnext⟩⟩ := enter_eq_some taken
      · cases hnext
        exact .inr ⟨_, _, rfl⟩
      · cases hnext
        exact .inl rfl
  | startTask id domain =>
      obtain ⟨_, _, _, _, _, -, -, -, -, -, hnext⟩ := startTask_eq_some taken
      cases hnext
      exact .inl rfl
  | finishTask id domain result =>
      obtain ⟨_, _, _, _, _, -, -, -, -, -, hnext⟩ := finishTask_eq_some taken
      cases hnext
      exact .inl rfl
  | loseTask id domain =>
      obtain ⟨_, _, _, _, _, -, -, -, -, hnext⟩ := loseTask_eq_some taken
      cases hnext
      exact .inl rfl
  | close id now =>
      obtain ⟨_, _, _, _, -, -, -, hnext⟩ := close_eq_some taken
      cases hnext
      exact .inr ⟨_, _, rfl⟩
  | dropRound id =>
      cases (step_dropRound_eq_some taken).2
      exact .inl rfl
  | _ => contradiction

theorem settings_of_step (taken : e.step action = some (e', events)) :
    e'.settings = e.settings := by
  cases hkind : action.isOfRound with
  | true => exact (round_frame hkind taken).2.2.2.2.1
  | false => exact (preparing_frame hkind taken).settings

theorem nextCollector_le_of_step (taken : e.step action = some (e', events)) :
    e.nextCollector ≤ e'.nextCollector := by
  cases hkind : action.isOfRound with
  | true => exact Nat.le_of_eq (round_frame hkind taken).2.2.2.1.symm
  | false => exact (preparing_frame hkind taken).nextCollector

end Engine

end Cadence
