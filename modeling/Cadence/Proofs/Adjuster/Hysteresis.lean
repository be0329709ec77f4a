import Cadence.Proofs.Adjuster.Observing
import Cadence.Proofs.Run
import Mathlib.Data.List.DropRight

/-!
# Hysteresis

An adjuster that is told one observation after the other attempts a change only
when a state has persisted for as long as its rule says.  Here this is stated
about whole histories of observations: what the tracker keeps of a history is
when the run of equal observations at its end began.
-/

namespace Cadence

structure Observation where
  state : InstanceState
  now : Nat
  date : Utc
  /-- Whether a change of plan is accepted, if the observation leads to one. -/
  accepted : Bool
  settled : Utc

/-- Whether the call that an attempt makes succeeds. -/
def Observation.accepts (o : Observation) (attempt : Attempt) : Bool :=
  match attempt.call with
  | .pause => true
  | .change .. => o.accepted

namespace Adjuster

/-- Takes an observation in and settles the attempt that it leads to. -/
def told (a : Adjuster) (o : Observation) : Option (Adjuster × List Attempt) := do
  let (a, attempt) ← a.step (.tell o.state o.now o.date)
  match attempt with
  | none => return (a, [])
  | some attempt =>
      let (a, _) ← a.step (.settled (o.accepts attempt) o.settled)
      return (a, [attempt])

section Told

variable {a : Adjuster} {o : Observation} {tracker : Tracker} {attempt : Attempt}

theorem told_quiet (idle : a.stage = .idle)
    (observed : a.tracker.observe a.policy o.state o.now o.date = (tracker, none)) :
    a.told o = some ({ a with running := false, tracker, stage := .idle }, []) := by
  simp [told, step, idle, check, observed, rest]

theorem told_attempt (idle : a.stage = .idle)
    (observed : a.tracker.observe a.policy o.state o.now o.date = (tracker, some attempt)) :
    a.told o = some ({ a with
      running := false
      tracker := tracker.settle attempt (o.accepts attempt) o.now o.settled
      stage := .idle }, [attempt]) := by
  simp [told, step, idle, check, observed, rest]

end Told

abbrev History := List (Step Adjuster Observation Attempt)

/-- The observations of `s` at the end of the history that follow one another and led to nothing. -/
def quiet (s : InstanceState) (history : History) : History :=
  history.rtakeWhile (fun y => y.action.state = s && y.events.isEmpty)

/-- When the state of the observation was first seen, in the run of equal observations that ends
with it. -/
def persistsSince (history : History) (o : Observation) : Nat :=
  ((quiet o.state history).head?.map (·.action.now)).getD o.now

def Unchanged (history : History) : Prop :=
  ∀ y ∈ history, ∀ attempt ∈ y.events, y.action.accepts attempt = false

/-- The observation asks for another state, and no earlier change or its persistence warrants it. -/
def Due (policy : Policy) (history : History) (current : InstanceState) (o : Observation) : Prop :=
  o.state ≠ current ∧
    (Unchanged history ∨
      (policy.rule o.state).after.toNanos ≤ o.now - persistsSince history o)

instance (history : History) : Decidable (Unchanged history) :=
  inferInstanceAs (Decidable (∀ y ∈ history, _))

instance (policy : Policy) (history : History) (current : InstanceState) (o : Observation) :
    Decidable (Due policy history current o) :=
  inferInstanceAs (Decidable (_ ∧ _))

/-- What the adjuster has kept of the history. -/
structure Reflects (policy : Policy) (history : History) (a : Adjuster) : Prop where
  idle : a.stage = .idle
  policy_eq : a.policy = policy
  fresh : a.tracker.Fresh
  first : a.tracker.first = true ↔ Unchanged history
  since : ∀ s, s ≠ a.tracker.current.state →
    a.tracker.since? s = (quiet s history).head?.map (·.action.now)

section Step

variable {policy : Policy} {history : History} {a : Adjuster} {o : Observation}

theorem quiet_snoc (s : InstanceState) (y : Step Adjuster Observation Attempt) :
    quiet s (history ++ [y]) =
      if y.action.state = s ∧ y.events = [] then quiet s history ++ [y] else [] := by
  simp [quiet, List.rtakeWhile_concat]

theorem unchanged_snoc (y : Step Adjuster Observation Attempt) :
    Unchanged (history ++ [y]) ↔
      Unchanged history ∧ ∀ attempt ∈ y.events, y.action.accepts attempt = false := by
  simp [Unchanged, or_imp, forall_and]

namespace Reflects

theorem due_iff (h : Reflects policy history a) :
    Due policy history a.tracker.current.state o ↔
      o.state ≠ a.tracker.current.state ∧ (a.tracker.first = true ∨
        (policy.rule o.state).after.toNanos ≤
          o.now - (a.tracker.since? o.state).getD o.now) := by
  refine and_congr_right fun hother => ?_
  rw [h.first, h.since _ hother, persistsSince]

theorem observed (h : Reflects policy history a) (o : Observation) :
    (Due policy history a.tracker.current.state o →
      (a.tracker.observe a.policy o.state o.now o.date).2 =
        some ⟨o.state, (policy.rule o.state).plan⟩) ∧
    (¬ Due policy history a.tracker.current.state o →
      (a.tracker.observe a.policy o.state o.now o.date).2 = none) := by
  rw [h.due_iff, h.policy_eq, Tracker.observe_attempt h.fresh]
  exact ⟨fun hdue => if_pos hdue, fun hdue => if_neg hdue⟩

theorem create (policy : Policy) (timeout : Duration) (now : Nat) (date : Utc) :
    Reflects policy [] (create policy timeout now date) where
  idle := rfl
  policy_eq := rfl
  fresh _ := ⟨rfl, rfl⟩
  first := by simp [Adjuster.create, Tracker.create, Unchanged]
  since s _ := by simp [Adjuster.create, Tracker.create, Tracker.since?, quiet]

theorem snoc_quiet (h : Reflects policy history a) {tracker : Tracker}
    (observed : a.tracker.observe a.policy o.state o.now o.date = (tracker, none)) :
    let after := { a with running := false, tracker, stage := .idle }
    Reflects policy (history ++ [⟨a, o, after, []⟩]) after := by
  have hquiet := congrArg Prod.snd observed
  obtain ⟨hcurrent, hfirst⟩ := a.tracker.observe_keeps a.policy o.state o.now o.date
  have hfresh := h.fresh.observe hquiet
  have hsince := a.tracker.observe_since? hquiet
  simp only [observed] at hcurrent hfirst hfresh hsince
  constructor
  · rfl
  · exact h.policy_eq
  · exact hfresh
  · simp [unchanged_snoc, hfirst, h.first]
  · intro s hs
    rw [hsince s hs, quiet_snoc]
    by_cases hsame : s = o.state
    · subst hsame
      rw [h.since _ (by rwa [← hcurrent])]
      cases hhead : quiet o.state history <;> simp
    · simp [hsame, Ne.symm hsame]

theorem snoc_attempt (h : Reflects policy history a) {tracker : Tracker} {attempt : Attempt}
    (observed : a.tracker.observe a.policy o.state o.now o.date = (tracker, some attempt)) :
    let after := { a with
      running := false
      tracker := tracker.settle attempt (o.accepts attempt) o.now o.settled
      stage := .idle }
    Reflects policy (history ++ [⟨a, o, after, [attempt]⟩]) after := by
  obtain ⟨hcurrent, hfirst⟩ := a.tracker.observe_keeps a.policy o.state o.now o.date
  simp only [observed] at hcurrent hfirst
  constructor
  · rfl
  · exact h.policy_eq
  · intro hf
    simp only [Tracker.settle_first, Bool.and_eq_true, hfirst] at hf
    obtain ⟨hf, haccepts⟩ := hf
    simp_all [(h.fresh hf).1]
  · simp [unchanged_snoc, hfirst, h.first]
  · intro s _
    simp [Tracker.since?, quiet_snoc]

theorem told (h : Reflects policy history a) (o : Observation) :
    ∃ after attempts, a.told o = some (after, attempts) ∧
      attempts = (a.tracker.observe a.policy o.state o.now o.date).2.toList ∧
      after.tracker.current.state =
        (if ∃ attempt ∈ attempts, o.accepts attempt then o.state
          else a.tracker.current.state) ∧
      Reflects policy (history ++ [⟨a, o, after, attempts⟩]) after := by
  obtain ⟨hcurrent, -⟩ := a.tracker.observe_keeps a.policy o.state o.now o.date
  have hattempt := h.observed o
  cases hobserved : a.tracker.observe a.policy o.state o.now o.date with
  | mk tracker attempt =>
      simp only [hobserved] at hcurrent hattempt
      cases attempt with
      | none =>
          refine ⟨_, _, told_quiet h.idle hobserved, rfl, ?_, h.snoc_quiet hobserved⟩
          simpa using congrArg Standing.state hcurrent
      | some attempt =>
          refine ⟨_, _, told_attempt h.idle hobserved, rfl, ?_, h.snoc_attempt hobserved⟩
          have hstate : attempt.state = o.state := by
            by_cases hdue : Due policy history a.tracker.current.state o
            · simpa using congrArg (Option.map Attempt.state) (hattempt.1 hdue)
            · simpa using hattempt.2 hdue
          cases haccepts : o.accepts attempt <;> simp [haccepts, hcurrent, hstate]

end Reflects

theorem reflects_of_run {timeout : Duration} {now : Nat} {date : Utc} {last : Adjuster}
    (run : Run told (create policy timeout now date) history last) :
    Reflects policy history last := by
  induction run with
  | nil => exact .create ..
  | snoc _ taken ih =>
      obtain ⟨after, attempts, htold, -, -, hreflects⟩ := ih.told _
      rw [htold] at taken
      cases taken
      exact hreflects

end Step

/-- The call that a rule asks for: without a plan that nothing is collected, or else the change to the
plan. -/
theorem call_of_rule (state : InstanceState) (plan : String) :
    (Attempt.mk state plan).call = if plan = "" then .pause else .change state plan := by
  by_cases hplan : plan = "" <;> simp [Attempt.call, Attempt.pauses, hplan]

theorem accepts_of_rule (o : Observation) (plan : String) :
    o.accepts ⟨o.state, plan⟩ = true ↔ plan = "" ∨ o.accepted = true := by
  rw [Observation.accepts, call_of_rule]
  by_cases hplan : plan = "" <;> simp [hplan]

/-- Each observation of a history leads to exactly the attempt that is due, if any: a call to pause
where no plan belongs to the state, and the change to its plan otherwise.  The state changes just
when that call succeeds. -/
theorem attempts_when_due {policy : Policy} {timeout : Duration} {now : Nat} {date : Utc}
    {history : History} {last : Adjuster}
    (run : Run told (create policy timeout now date) history last) (o : Observation) :
    ∃ after attempts, last.told o = some (after, attempts) ∧
      (Due policy history last.tracker.current.state o →
        attempts = [⟨o.state, (policy.rule o.state).plan⟩] ∧
        attempts.map Attempt.call =
          [if (policy.rule o.state).plan = "" then .pause
            else .change o.state (policy.rule o.state).plan]) ∧
      (¬ Due policy history last.tracker.current.state o → attempts = []) ∧
      after.tracker.current.state =
        if Due policy history last.tracker.current.state o ∧
            ((policy.rule o.state).plan = "" ∨ o.accepted = true) then o.state
        else last.tracker.current.state := by
  have hreflects := reflects_of_run run
  obtain ⟨after, attempts, htold, hattempts, hstate, -⟩ := hreflects.told o
  obtain ⟨hdue, hquiet⟩ := hreflects.observed o
  by_cases h : Due policy history last.tracker.current.state o
  · rw [hdue h, Option.toList_some] at hattempts
    subst hattempts
    refine ⟨after, _, htold, fun _ => ⟨rfl, ?_⟩, fun hnot => absurd h hnot, ?_⟩
    · rw [List.map_singleton, call_of_rule]
    · simpa [h, accepts_of_rule] using hstate
  · rw [hquiet h, Option.toList_none] at hattempts
    subst hattempts
    refine ⟨after, _, htold, fun hdue => absurd hdue h, fun _ => rfl, ?_⟩
    simpa [h] using hstate

def patient : Policy where
  standby := { after := .ofSecs 2, plan := "replica" }
  readOnly := { after := .ofSecs 9 }
  active := { plan := "primary" }

/-- The first change is refused and then made; a blip breaks the run of standby in two. -/
def blips : List Observation :=
  [⟨.active, 0, .epoch, false, .epoch⟩, ⟨.active, 1000000000, .epoch, true, .epoch⟩,
    ⟨.standby, 2000000000, .epoch, true, .epoch⟩, ⟨.readOnly, 3000000000, .epoch, true, .epoch⟩,
    ⟨.standby, 5000000000, .epoch, true, .epoch⟩, ⟨.standby, 6000000000, .epoch, true, .epoch⟩]

/-- Standby has persisted from the fifth observation on. -/
def persisting : Observation := ⟨.standby, 7000000000, .epoch, true, .epoch⟩

/-- A state without a plan, while every change is refused. -/
def unreachable : Observation := ⟨.offline, 8000000000, .epoch, false, .epoch⟩

theorem attempts_when_due_afterBlip :
    let run := Run.follow told (create patient .zero 0 .epoch) blips
    let later := Run.follow told (create patient .zero 0 .epoch) (blips ++ [persisting])
    (Run told (create patient .zero 0 .epoch) run.1 run.2 ∧
      ∃ after, run.2.told persisting = some (after, [⟨.standby, "replica"⟩]) ∧
        (Attempt.mk .standby "replica").call = .change .standby "replica" ∧
        after.tracker.current.state = .standby) ∧
    (Run told (create patient .zero 0 .epoch) later.1 later.2 ∧
      ∃ after, later.2.told unreachable = some (after, [⟨.offline, ""⟩]) ∧
        (Attempt.mk .offline "").call = .pause ∧ after.tracker.current.state = .offline) := by
  constructor
  · have hrun := Run.of_follow told (create patient .zero 0 .epoch) blips
    obtain ⟨after, attempts, htold, hdue, -, hstate⟩ := attempts_when_due hrun persisting
    obtain ⟨rfl, hcall⟩ := hdue (by decide +kernel)
    rw [if_pos (by decide +kernel)] at hstate
    exact ⟨hrun, after, htold, List.singleton_inj.1 hcall, hstate⟩
  · have hrun := Run.of_follow told (create patient .zero 0 .epoch) (blips ++ [persisting])
    obtain ⟨after, attempts, htold, hdue, -, hstate⟩ := attempts_when_due hrun unreachable
    obtain ⟨rfl, hcall⟩ := hdue (by decide +kernel)
    rw [if_pos (by decide +kernel)] at hstate
    exact ⟨hrun, after, htold, List.singleton_inj.1 hcall, hstate⟩

end Adjuster

end Cadence
