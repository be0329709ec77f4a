import Cadence.Proofs.Adjuster.Tracking
import Cadence.Proofs.Rehearsal.Clock
import Cadence.Rehearsal.MonitorScene

/-!
# What is rehearsed are runs

Whatever somebody asks for in a rehearsal of an engine or of a scheduler, the
machine gets there by a run of its own.  The same holds of a monitor as long as
nobody chooses plans past it, and of an adjuster until it is broken off.
-/

namespace Cadence

open Rehearsal (Enacts)

/-! ## The engine -/

namespace EngineRehearsal

theorem enacts_start (r : EngineRehearsal) (what : EngineRequest) :
    Enacts Engine.scene r.stage (r.start what).1.stage := by
  cases what with
  | prepare plan cancelAt =>
      cases plan with
      | error reason => exact .refl _
      | ok plan =>
          cases cancelAt with
          | none => exact Rehearsal.enacts_perform _ _
          | some millis => exact (Rehearsal.enacts_appoint _ _ _).trans (Rehearsal.enacts_perform _ _)
  | collect level timeout =>
      cases timeout with
      | none => exact Rehearsal.enacts_perform _ _
      | some millis => exact (Rehearsal.enacts_appoint _ _ _).trans (Rehearsal.enacts_perform _ _)
  | sleep millis => exact Rehearsal.enacts_appoint _ _ _
  | rescript change => exact .of_eq rfl rfl (Nat.le_refl _)

theorem enacts_waitFor (r : EngineRehearsal) (job : EngineJob) (inFront : Bool) :
    Enacts Engine.scene r.stage (r.waitFor job inFront).1.stage := by
  have hawait : Enacts Engine.scene r.stage
      (r.stage.await Engine.scene (fun stage => (ended? r.ends stage job).isSome)) :=
    Rehearsal.enacts_await _ _
  unfold waitFor
  dsimp only
  split
  · exact hawait
  · cases inFront with
    | false => exact hawait
    | true => exact hawait.trans (Rehearsal.enacts_perform _ _)

theorem enacts_request (r : EngineRehearsal) (what : EngineRequest) :
    Enacts Engine.scene r.stage (r.request what).1.stage := by
  have hstart := enacts_start r what
  cases what with
  | sleep millis => exact Rehearsal.enacts_pass _ _
  | prepare | collect | rescript => exact hstart.trans (enacts_waitFor _ _ _)

theorem enacts_join (r : EngineRehearsal) (name : String) :
    Enacts Engine.scene r.stage (r.join name).1.stage := by
  unfold join
  split
  · exact .refl _
  · exact enacts_waitFor { r with background := r.background.erase name } _ _

theorem enacts_settle (r : EngineRehearsal) :
    Enacts Engine.scene r.stage r.settle.stage := Rehearsal.enacts_settle r.stage

/-- The rehearsals of an engine that somebody can come to. -/
inductive Reached (settings : EngineSettings) (cast : Cast) : EngineRehearsal → Prop
  | create : Reached settings cast (.create settings cast)
  | request {r : EngineRehearsal} (what : EngineRequest) :
      Reached settings cast r → Reached settings cast (r.request what).1
  | leave {r : EngineRehearsal} (name : String) (what : EngineRequest) :
      Reached settings cast r → Reached settings cast (r.leave name what).1
  | join {r : EngineRehearsal} (name : String) :
      Reached settings cast r → Reached settings cast (r.join name).1
  | settle {r : EngineRehearsal} : Reached settings cast r → Reached settings cast r.settle
  | turnPage {r : EngineRehearsal} : Reached settings cast r → Reached settings cast r.turnPage

/-- What is true of all runs of an engine is true of all its rehearsals. -/
theorem run_of_reached {settings : EngineSettings} {cast : Cast} {r : EngineRehearsal}
    (h : Reached settings cast r) :
    ∃ steps, Run Engine.step (.create settings ∅) steps r.stage.machine := by
  induction h with
  | create => exact ⟨[], .nil⟩
  | request what _ ih => exact (enacts_request _ what).run ih
  | leave name what _ ih => exact (enacts_start _ what).run ih
  | join name _ ih => exact (enacts_join _ name).run ih
  | settle _ ih => exact (enacts_settle _).run ih
  | turnPage _ ih => exact ih

end EngineRehearsal

/-! ## Requests to a scheduler -/

/-- What a request asks of the scheduler, if it does not just let time pass. -/
def SchedulerRequest.action? : SchedulerRequest → Option SchedulerAction
  | .change state plan => some (.call (.change state plan))
  | .wait => some (.call .wait)
  | .pause => some .pause
  | .sleep _ | .jump _ | .rescript _ => none

namespace Rehearsal

variable {σ α : Type} {scene : Scene σ α SchedulerEvent} {lens : SchedulerLens σ α}

/-- What is asked of the scheduler is a step of the machine, if the machine takes every step of its
scheduler that is asked for. -/
theorem enacts_ask {r : Rehearsal σ α SchedulerEvent} {action : SchedulerAction}
    (hlens : lens.set r.machine (lens.get r.machine) = r.machine)
    (htakes : scene.step r.machine (lens.act action) = none →
      (lens.get r.machine).step action = none) :
    Enacts scene r (r.ask scene lens action) := by
  unfold ask
  split
  · next next hact => exact ((happens_act hact).trans (happens_refresh _)).1
  · next hact =>
      have hnone := htakes (Option.map_eq_none_iff.1 hact)
      refine .trans ?_ (happens_refresh _).1
      refine .of_eq ?_ rfl (Nat.le_refl _)
      simp [SchedulerLens.modify, hnone, hlens]

theorem enacts_after_call (r : Rehearsal σ α SchedulerEvent) (request : ChangeRequest) :
    Enacts scene (r.ask scene lens (.call request)) (r.call scene lens request).1 := by
  unfold call
  dsimp only
  split
  · exact (enacts_perform _ _).trans (enacts_await _ _)
  · exact (enacts_perform _ _).trans (enacts_await _ _)
  · exact ((enacts_perform _ _).trans (enacts_await _ _)).trans (enacts_perform _ _)

/-- If what is asked is a step of the machine, so is all that comes of it. -/
theorem enacts_request {r : Rehearsal σ α SchedulerEvent} {what : SchedulerRequest}
    (hask : ∀ action ∈ what.action?, Enacts scene r (r.ask scene lens action)) :
    Enacts scene r (r.request scene lens what).1 := by
  cases what with
  | change state plan => exact (hask _ rfl).trans (enacts_after_call r _)
  | wait => exact (hask _ rfl).trans (enacts_after_call r _)
  | pause => exact hask .pause rfl
  | sleep millis => exact enacts_pass r millis
  | jump millis => exact enacts_jump r millis
  | rescript change => exact .of_eq rfl rfl (Nat.le_refl _)

end Rehearsal

/-! ## The scheduler -/

namespace SchedulerRehearsal

theorem enacts_start (r : SchedulerRehearsal) : Enacts Scheduler.scene r.stage r.start.stage :=
  (Rehearsal.enacts_perform _ _).trans (Rehearsal.enacts_settle _)

theorem enacts_stop (r : SchedulerRehearsal) : Enacts Scheduler.scene r.stage r.stop.1.stage := by
  unfold stop
  split
  · exact ((Rehearsal.enacts_perform _ _).trans (Rehearsal.enacts_await _ _)).trans
      (Rehearsal.enacts_settle _)
  · exact .refl _

theorem enacts_request (r : SchedulerRehearsal) (what : SchedulerRequest) :
    Enacts Scheduler.scene r.stage (r.request what).1.stage := by
  have hask (action : SchedulerAction) :
      Enacts Scheduler.scene r.stage (r.stage.ask Scheduler.scene .self action) :=
    Rehearsal.enacts_ask rfl id
  exact Rehearsal.enacts_request fun action _ => hask action

variable {settings : SchedulerSettings} {engine : EngineSettings} {store : PlanStore} {cast : Cast}
  {r : SchedulerRehearsal}

variable (settings engine store cast) in
/-- The rehearsals of a scheduler that somebody can come to. -/
inductive Reached : SchedulerRehearsal → Prop
  | create : Reached (.create settings engine store cast)
  | start {r : SchedulerRehearsal} : Reached r → Reached r.start
  | stop {r : SchedulerRehearsal} : Reached r → Reached r.stop.1
  | request {r : SchedulerRehearsal} (what : SchedulerRequest) :
      Reached r → Reached (r.request what).1
  | turnPage {r : SchedulerRehearsal} :
      Reached r → Reached { r with stage := r.stage.turnPage Scheduler.scene }

/-- What is true of all runs of a scheduler is true of all its rehearsals. -/
theorem run_of_reached (h : Reached settings engine store cast r) :
    ∃ steps, Run Scheduler.step
      (.create settings (.create engine ∅) store (cast.sinks.map (·.name))) steps
      r.stage.machine := by
  induction h with
  | create => exact ⟨[], .nil⟩
  | start _ ih => exact (enacts_start _).run ih
  | stop _ ih => exact (enacts_stop _).run ih
  | request what _ ih => exact (enacts_request _ what).run ih
  | turnPage _ ih => exact ih

end SchedulerRehearsal

/-! ## The monitor -/

namespace MonitorRehearsal

theorem enacts_start (r : MonitorRehearsal) : Enacts Monitor.scene r.stage r.start.1.stage :=
  (Rehearsal.enacts_perform _ _).trans (Rehearsal.enacts_settle _)

theorem enacts_stop (r : MonitorRehearsal) : Enacts Monitor.scene r.stage r.stop.1.stage := by
  unfold stop
  split
  · exact ((Rehearsal.enacts_perform _ _).trans (Rehearsal.enacts_await _ _)).trans
      (Rehearsal.enacts_settle _)
  · exact .refl _

/-- Whether the monitor allows what a request asks of its scheduler. -/
def Allows (m : Monitor) (what : SchedulerRequest) : Prop :=
  ∀ action ∈ what.action?, m.allows action = true

theorem enacts_request {r : MonitorRehearsal} {what : SchedulerRequest}
    (allowed : Allows r.stage.machine what) :
    Enacts Monitor.scene r.stage (r.request what).1.stage := by
  refine Rehearsal.enacts_request fun action haction => Rehearsal.enacts_ask rfl fun hnone => ?_
  have hallows : r.stage.machine.allows action = true := allowed action haction
  change r.stage.machine.schedulerStep action = none at hnone
  rw [Monitor.schedulerStep, if_pos hallows] at hnone
  exact Option.map_eq_none_iff.1 hnone

variable {config : Config} {store : PlanStore} {transform : Option (Batch → Batch)} {cast : Cast}
  {r : MonitorRehearsal}

variable (config store transform cast) in
/-- The rehearsals of a monitor that somebody can come to who asks for nothing else. -/
inductive Reached : MonitorRehearsal → Prop
  | create : Reached (.create config store transform cast)
  | start {r : MonitorRehearsal} : Reached r → Reached r.start.1
  | stop {r : MonitorRehearsal} : Reached r → Reached r.stop.1
  | request {r : MonitorRehearsal} {what : SchedulerRequest}
      (allowed : Allows r.stage.machine what) : Reached r → Reached (r.request what).1
  | turnPage {r : MonitorRehearsal} :
      Reached r → Reached { r with stage := r.stage.turnPage Monitor.scene }

/-- What is true of all runs of a monitor is true of all its rehearsals. -/
theorem run_of_reached (h : Reached config store transform cast r) :
    ∃ steps, Run Monitor.step
      (.create config store (cast.sinks.map (·.name)) transform (Adjuster.instant 0) .epoch) steps
      r.stage.machine := by
  induction h with
  | create => exact ⟨[], .nil⟩
  | start _ ih => exact (enacts_start _).run ih
  | stop _ ih => exact (enacts_stop _).run ih
  | request allowed _ ih => exact (enacts_request allowed).run ih
  | turnPage _ ih => exact ih

end MonitorRehearsal

/-! ## The adjuster -/

/-- Of a trial only the adjuster makes steps. -/
theorem AdjusterTrial.run_act {t t' : AdjusterTrial}
    {steps : List (Step AdjusterTrial AdjusterAction Attempt)} (run : Run step t steps t') :
    ∃ steps, Run Adjuster.act t.adjuster steps t'.adjuster := by
  induction run with
  | nil => exact ⟨[], .nil⟩
  | snoc _ taken ih =>
      obtain ⟨steps, run⟩ := ih
      obtain ⟨⟨adjuster, attempt⟩, hstep, heq⟩ := Option.map_eq_some_iff.1 taken
      obtain ⟨rfl, rfl⟩ := Prod.mk.inj heq
      exact ⟨_, run.snoc (Option.map_eq_some_iff.2 ⟨⟨adjuster, attempt⟩, hstep, rfl⟩)⟩

namespace AdjusterRehearsal

open AdjusterTrial (scene)

/-- An adjuster is broken off only when it cannot go on or when it was only to observe. -/
theorem enacts_request (r : AdjusterRehearsal) (what : AdjusterRequest) :
    ∃ r', Enacts scene r r' ∧ ((request r what).1 = r' ∨
      (request r what).1 = abandon r' ∧ ((request r what).2 = .stuck ∨ what = .observe)) := by
  have hidle (r' : AdjusterRehearsal) (henacts : Enacts scene r r') :
      ∃ r'', Enacts scene r r'' ∧ ((waitForIdle r').1 = r'' ∨
        (waitForIdle r').1 = abandon r'' ∧ ((waitForIdle r').2 = .stuck ∨ what = .observe)) := by
    refine ⟨_, henacts.trans (Rehearsal.enacts_await r' isIdle), ?_⟩
    unfold waitForIdle
    dsimp only
    split
    · exact .inl rfl
    · exact .inr ⟨rfl, .inl rfl⟩
  cases what with
  | tell state millis => exact hidle _ (Rehearsal.enacts_perform _ _)
  | check => exact hidle _ (Rehearsal.enacts_perform _ _)
  | observe =>
      exact ⟨_, (Rehearsal.enacts_perform _ _).trans (Rehearsal.enacts_await _ _),
        .inr ⟨rfl, .inr rfl⟩⟩
  | run millis =>
      have hruns : Enacts scene r
          (((r.perform scene [.observe true]).pass scene millis).await scene isWaiting) :=
        ((Rehearsal.enacts_perform _ _).trans (Rehearsal.enacts_pass _ _)).trans
          (Rehearsal.enacts_await _ _)
      unfold request
      dsimp only
      split
      · exact ⟨_, hruns.trans (Rehearsal.enacts_perform _ [.stop]), .inl rfl⟩
      · exact ⟨_, hruns, .inr ⟨rfl, .inl rfl⟩⟩
  | sleep millis => exact ⟨_, Rehearsal.enacts_pass _ _, .inl rfl⟩
  | fail refuses =>
      exact ⟨(request r (.fail refuses)).1, .of_eq rfl rfl (Nat.le_refl _), .inl rfl⟩
  | rescript change =>
      exact ⟨(request r (.rescript change)).1, .of_eq rfl rfl (Nat.le_refl _), .inl rfl⟩

variable {policy : Policy} {timeout : Duration} {cast : Cast} {r : AdjusterRehearsal}

variable (policy timeout cast) in
/-- The rehearsals of an adjuster that has never been broken off. -/
inductive Reached : AdjusterRehearsal → Prop
  | create : Reached (.create policy timeout cast)
  | request {r : AdjusterRehearsal} {what : AdjusterRequest} (acts : what ≠ .observe)
      (answered : (request r what).2 ≠ .stuck) : Reached r → Reached (request r what).1
  | turnPage {r : AdjusterRehearsal} : Reached r → Reached (r.turnPage scene)

/-- What is true of all runs of an adjuster is true of all rehearsals in which it is never broken
off. -/
theorem run_of_reached (h : Reached policy timeout cast r) :
    ∃ steps, Run Adjuster.act (.create policy timeout (Adjuster.instant 0) .epoch) steps
      r.machine.adjuster := by
  have htrial : ∃ steps, Run AdjusterTrial.step
      ⟨.create policy timeout (Adjuster.instant 0) .epoch⟩ steps r.machine := by
    induction h with
    | create => exact ⟨[], .nil⟩
    | @request r what acts answered _ ih =>
        obtain ⟨r', henacts, heq | ⟨-, hstuck | hobserve⟩⟩ := enacts_request r what
        · rw [heq]
          exact henacts.run ih
        · exact absurd hstuck answered
        · exact absurd hobserve acts
    | turnPage _ ih => exact ih
  obtain ⟨steps, run⟩ := htrial
  exact AdjusterTrial.run_act run

end AdjusterRehearsal

end Cadence
