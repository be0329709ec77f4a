import Cadence.Adjuster.Step

/-!
# What an adjuster does with an observation

An observation leads to an attempt or not, and that leaves the current state
alone; only an attempt that succeeds replaces it.
-/

namespace Cadence

namespace Duration

theorem isZero_iff (d : Duration) : d.isZero = true ↔ d.toNanos = 0 := by
  simp only [isZero, toNanos, Bool.and_eq_true, decide_eq_true_eq]
  omega

end Duration

namespace Tracker

variable {policy : Policy} {t : Tracker} {s : InstanceState} {now : Nat} {date : Utc}

def since? (t : Tracker) (s : InstanceState) : Option Nat :=
  (t.pending.filter (·.state = s)).map Standing.since

/-- Nothing is pending before the first change, which leaves the state that was assumed. -/
def Fresh (t : Tracker) : Prop :=
  t.first = true → t.current.state = .offline ∧ t.pending = none

theorem observe_attempt (fresh : t.Fresh) :
    (t.observe policy s now date).2 =
      if s ≠ t.current.state ∧
          (t.first = true ∨ (policy.rule s).after.toNanos ≤ now - (t.since? s).getD now) then
        some ⟨s, (policy.rule s).plan⟩
      else none := by
  unfold observe since?
  by_cases hcurrent : s = t.current.state
  · simp [hcurrent]
  · cases hfirst : t.first with
    | true =>
        obtain ⟨hoffline, hpending⟩ := fresh hfirst
        rw [hoffline] at hcurrent
        simp [hcurrent, hoffline, hpending]
    | false =>
        cases hpending : t.pending.filter (·.state = s) with
        | none => simp [hcurrent, Duration.isZero_iff]
        | some p => simp [hcurrent]

theorem eq_of_observe_attempt {attempt : Attempt}
    (h : (t.observe policy s now date).2 = some attempt) :
    attempt = ⟨s, (policy.rule s).plan⟩ := by
  have ite_some : ∀ {p : Prop} [Decidable p] {a : Attempt},
      (if p then some a else none) = some attempt → attempt = a := by
    intro p _ a h
    split at h
    · exact (Option.some.inj h).symm
    · contradiction
  unfold observe at h
  split at h
  · contradiction
  · split at h
    · exact ite_some h
    · split at h
      · exact (Option.some.inj h).symm
      · exact ite_some h

theorem observe_keeps (t : Tracker) (policy : Policy) (s : InstanceState) (now : Nat) (date : Utc) :
    (t.observe policy s now date).1.current = t.current ∧
      (t.observe policy s now date).1.first = t.first := by
  unfold observe
  by_cases hcurrent : s = t.current.state
  · simp only [hcurrent, if_true, confirm]
    split <;> simp
  · simp only [hcurrent, if_false]
    split
    · simp
    · split <;> simp [await]

theorem observe_since? (quiet : (t.observe policy s now date).2 = none) (s' : InstanceState)
    (other : s' ≠ (t.observe policy s now date).1.current.state) :
    (t.observe policy s now date).1.since? s' =
      if s' = s then some ((t.since? s).getD now) else none := by
  rw [(t.observe_keeps policy s now date).1] at other
  unfold observe at quiet ⊢
  by_cases hcurrent : s = t.current.state
  · have hs : s' ≠ s := by rwa [hcurrent]
    simp only [hcurrent, if_true, confirm]
    cases hpending : t.pending with
    | none => simp [since?, hpending, other]
    | some p => simp [since?, other]
  · simp only [hcurrent, if_false] at quiet ⊢
    cases hpending : t.pending.filter (·.state = s) with
    | none =>
        simp only [hpending] at quiet ⊢
        split at quiet
        · simp at quiet
        · rename_i hfirst
          simp only [hfirst, if_false, since?, await, standing, hpending]
          by_cases hs : s' = s
          · simp [hs, Option.filter]
          · simp [hs, Option.filter, Ne.symm hs]
    | some p =>
        obtain ⟨hp, hstate⟩ := Option.filter_eq_some_iff.1 hpending
        have hstate : p.state = s := by simpa using hstate
        simp only [since?, hp]
        by_cases hs : s' = s
        · simp [hs, hstate, Option.filter]
        · simp [hs, hstate, Option.filter, Ne.symm hs]

theorem Fresh.observe (fresh : t.Fresh) (quiet : (t.observe policy s now date).2 = none) :
    (t.observe policy s now date).1.Fresh := by
  intro hfirst
  obtain ⟨hsame, hkept⟩ := t.observe_keeps policy s now date
  rw [hkept] at hfirst
  rw [hsame]
  obtain ⟨hoffline, hpending⟩ := fresh hfirst
  rw [observe_attempt fresh] at quiet
  have hcurrent : s = t.current.state := by
    refine Decidable.byContradiction fun hother => ?_
    simp [hother, hfirst] at quiet
  exact ⟨hoffline, by simp [Tracker.observe, confirm, hcurrent, hpending]⟩

section Settle

variable {attempt : Attempt} {succeeded : Bool}

@[simp] theorem settle_pending : (t.settle attempt succeeded now date).pending = none := by
  cases succeeded <;> rfl

@[simp] theorem settle_first :
    (t.settle attempt succeeded now date).first = (t.first && !succeeded) := by
  cases succeeded <;> simp [settle, commit, fail]

@[simp] theorem settle_current :
    (t.settle attempt succeeded now date).current =
      if succeeded then ⟨attempt.state, attempt.plan, now, date⟩ else t.current := by
  cases succeeded <;> rfl

end Settle

end Tracker

namespace Adjuster

variable {a a' : Adjuster} {attempt : Option Attempt}

def IsAttempting (a : Adjuster) : Prop := ∃ attempt now, a.stage = .attempting attempt now

theorem rest_frame :
    a.rest.policy = a.policy ∧ a.rest.tracker.current = a.tracker.current ∧
      ¬ a.rest.IsAttempting := by
  have hwait : a.tracker.nextWait.2.current = a.tracker.current := by
    unfold Tracker.nextWait
    split <;> rfl
  unfold rest IsAttempting
  split
  · simp [hwait]
  · simp

theorem check_cases {state : InstanceState} {now : Nat} {date : Utc}
    (h : a.check state now date = (a', attempt)) :
    a'.policy = a.policy ∧ a'.tracker.current = a.tracker.current ∧
      match attempt with
      | none => ¬ a'.IsAttempting
      | some x => a'.stage = .attempting x now ∧ x.plan = (a.policy.rule x.state).plan := by
  have hkeeps := a.tracker.observe_keeps a.policy state now date
  unfold check at h
  split at h
  · next tracker hobserved =>
      obtain ⟨rfl, rfl⟩ := Prod.mk.inj h
      rw [hobserved] at hkeeps
      obtain ⟨hpolicy, hcurrent, hstage⟩ := ({ a with tracker } : Adjuster).rest_frame
      exact ⟨hpolicy, hcurrent.trans hkeeps.1, hstage⟩
  · next tracker x hobserved =>
      obtain ⟨rfl, rfl⟩ := Prod.mk.inj h
      rw [hobserved] at hkeeps
      have hx := a.tracker.eq_of_observe_attempt (congrArg Prod.snd hobserved)
      exact ⟨rfl, hkeeps.1, rfl, by rw [hx]⟩

/-- The ways in which a step can go: on without the tracker, with an observed state for it, or with
the outcome of the attempt. -/
inductive Goes (a : Adjuster) : AdjusterAction → Adjuster × Option Attempt → Prop
  | moves {action : AdjusterAction} {stage : AdjusterStage} {running : Bool} :
      (∀ succeeded date, action ≠ .settled succeeded date) → ¬ a.IsAttempting →
      (∀ x now, stage ≠ .attempting x now) → Goes a action ({ a with stage, running }, none)
  | checks {action : AdjusterAction} {state : InstanceState} {now : Nat} {date : Utc}
      {running : Bool} {outcome : Adjuster × Option Attempt} :
      action = .take now date ∨ action = .tell state now date → ¬ a.IsAttempting →
      ({ a with running } : Adjuster).check state now date = outcome → Goes a action outcome
  | settles {x : Attempt} {now : Nat} {succeeded : Bool} {date : Utc} :
      a.stage = .attempting x now →
      Goes a (.settled succeeded date)
        ({ a with tracker := a.tracker.settle x succeeded now date }.rest, none)

theorem goes_of_step {action : AdjusterAction} (h : a.step action = some (a', attempt)) :
    a.Goes action (a', attempt) := by
  cases action with
  | observe repeatedly =>
      simp only [step] at h
      split at h
      · next hidle =>
          cases h
          exact .moves (by simp) (by simp [IsAttempting, hidle]) (by simp)
      · contradiction
  | standby answer =>
      simp only [step] at h
      split at h
      · next hasking =>
          cases h
          exact .moves (by simp) (by simp [IsAttempting, hasking]) (by cases answer <;> simp)
      · contradiction
  | readOnly answer =>
      simp only [step] at h
      split at h
      · next hasking =>
          cases h
          exact .moves (by simp) (by simp [IsAttempting, hasking]) (by simp)
      · contradiction
  | take now date =>
      simp only [step] at h
      split at h
      · next state hobserved =>
          have hidle : ¬ a.IsAttempting := by simp [IsAttempting, hobserved]
          exact .checks (.inl rfl) hidle (Option.some.inj h)
      · contradiction
  | tell state now date =>
      simp only [step] at h
      split at h
      · next hidle =>
          exact .checks (.inr rfl) (by simp [IsAttempting, hidle]) (Option.some.inj h)
      · contradiction
  | settled succeeded date =>
      simp only [step] at h
      split at h
      · next x now hattempting =>
          cases h
          exact .settles hattempting
      · contradiction
  | wake =>
      simp only [step] at h
      split at h
      · next seconds hwaiting =>
          cases h
          exact .moves (by simp) (by simp [IsAttempting, hwaiting]) (by simp)
      · contradiction
  | stop =>
      simp only [step] at h
      split at h
      · next seconds hwaiting =>
          cases h
          exact .moves (by simp) (by simp [IsAttempting, hwaiting]) (by simp)
      · contradiction

/-- A step makes an attempt, settles the one that is made, or has nothing to do with any. -/
theorem step_cases {action : AdjusterAction} (h : a.step action = some (a', attempt)) :
    a'.policy = a.policy ∧
      ((attempt = none ∧ ¬ a.IsAttempting ∧ ¬ a'.IsAttempting ∧
          a'.tracker.current = a.tracker.current) ∨
        (∃ x now, attempt = some x ∧ ¬ a.IsAttempting ∧ a'.stage = .attempting x now ∧
          a'.tracker.current = a.tracker.current ∧ x.plan = (a.policy.rule x.state).plan) ∨
        ∃ x now succeeded date, action = .settled succeeded date ∧ attempt = none ∧
          a.stage = .attempting x now ∧ ¬ a'.IsAttempting ∧
          a'.tracker.current =
            if succeeded then ⟨x.state, x.plan, now, date⟩ else a.tracker.current) := by
  cases goes_of_step h with
  | moves _ hidle hstage =>
      exact ⟨rfl, .inl ⟨rfl, hidle, fun ⟨x, now, hx⟩ => hstage x now hx, rfl⟩⟩
  | @checks _ _ now _ _ _ _ hidle hcheck =>
      obtain ⟨hpolicy, hcurrent, hattempt⟩ := check_cases hcheck
      cases attempt with
      | none => exact ⟨hpolicy, .inl ⟨rfl, hidle, hattempt, hcurrent⟩⟩
      | some x =>
          obtain ⟨hstage, hplan⟩ := hattempt
          exact ⟨hpolicy, .inr (.inl ⟨x, now, rfl, hidle, hstage, hcurrent, hplan⟩)⟩
  | @settles x now succeeded date hattempting =>
      obtain ⟨hpolicy, hcurrent, hrest⟩ := ({ a with
        tracker := a.tracker.settle x succeeded now date } : Adjuster).rest_frame
      refine ⟨hpolicy, .inr (.inr ⟨x, now, succeeded, date, rfl, rfl, hattempting, hrest, ?_⟩)⟩
      rw [hcurrent, Tracker.settle_current]

theorem rest_first (a : Adjuster) : a.rest.tracker.first = a.tracker.first := by
  have hwait : a.tracker.nextWait.2.first = a.tracker.first := by
    unfold Tracker.nextWait
    split <;> rfl
  unfold rest
  split
  · exact hwait
  · rfl

theorem check_first {state : InstanceState} {now : Nat} {date : Utc}
    (h : a.check state now date = (a', attempt)) : a'.tracker.first = a.tracker.first := by
  have hkeeps := (a.tracker.observe_keeps a.policy state now date).2
  unfold check at h
  split at h
  · next tracker hobserved =>
      obtain ⟨rfl, -⟩ := Prod.mk.inj h
      rw [hobserved] at hkeeps
      exact (rest_first _).trans hkeeps
  · next tracker x hobserved =>
      obtain ⟨rfl, -⟩ := Prod.mk.inj h
      rw [hobserved] at hkeeps
      exact hkeeps

/-- Whether a change has been made yet is settled by attempts alone. -/
theorem first_of_step {action : AdjusterAction} (h : a.step action = some (a', attempt)) :
    a'.tracker.first =
      match action with
      | .settled succeeded _ => a.tracker.first && !succeeded
      | _ => a.tracker.first := by
  cases goes_of_step h with
  | moves hother =>
      split
      · next succeeded date _ => exact absurd rfl (hother succeeded date)
      · rfl
  | checks hgiven _ hcheck =>
      have hfirst := check_first hcheck
      rcases hgiven with rfl | rfl <;> exact hfirst
  | settles => rw [rest_first, Tracker.settle_first]

/-- Only an observation that is handed to the tracker leads to an attempt. -/
theorem observes_of_attempt {action : AdjusterAction} {x : Attempt}
    (h : a.step action = some (a', some x)) :
    (∃ now date, action = .take now date) ∨ ∃ state now date, action = .tell state now date := by
  cases goes_of_step h with
  | checks hgiven => exact hgiven.imp (fun htake => ⟨_, _, htake⟩) fun htell => ⟨_, _, _, htell⟩

end Adjuster

end Cadence
