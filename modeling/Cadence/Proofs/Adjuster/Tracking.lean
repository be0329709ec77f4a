import Cadence.Proofs.Adjuster.Hysteresis

/-!
# What an adjuster keeps track of

Between attempts the fields of a tracker and the line that it shows belong
together: the line names what is pending, or else what is current, and both are
recorded with the plans that the policy has for them.  An observation may break
this only as far as it leads to an attempt, and settling the attempt restores it,
whether the attempt succeeds or fails.
-/

namespace Cadence

namespace Tracker

/-- What holds of a tracker at any time. -/
structure Grounded (policy : Policy) (t : Tracker) : Prop where
  first_iff : t.first = true ↔ t.previous = none
  offline : t.first = true → t.current.state = .offline
  current_plan : t.current.plan = (policy.rule t.current.state).plan
  previous_ne : ∀ s, t.previous = some s → s.state ≠ t.current.state

/-- A pending state is another one than the current one, with its plan and a delay to wait for. -/
structure Awaits (policy : Policy) (t : Tracker) (s : Standing) : Prop where
  ne_current : s.state ≠ t.current.state
  delayed : (policy.rule s.state).after.toNanos ≠ 0
  plan_eq : s.plan = (policy.rule s.state).plan
  line_eq : t.line = "pending " ++ (s.state.text ++ " since " ++ s.date.renderPlain)

/-- What holds of a tracker while no attempt is being made. -/
structure Consistent (policy : Policy) (t : Tracker) : Prop extends Grounded policy t where
  nothing_pending : t.first = true → t.pending = none
  pending : ∀ s, t.pending = some s → Awaits policy t s
  line : t.pending = none →
    ∃ rest, t.line = t.current.state.text ++ " since " ++ t.current.date.renderPlain ++ rest

/-- A change to another state, to the plan that the policy has for it. -/
structure Warrants (policy : Policy) (t : Tracker) (x : Attempt) : Prop where
  ne_current : x.state ≠ t.current.state
  plan_eq : x.plan = (policy.rule x.state).plan

variable {policy : Policy} {t t' : Tracker} {s : InstanceState} {x : Attempt} {now : Nat}
  {date : Utc}

theorem Grounded.of_same (h : t.Grounded policy) (hfirst : t'.first = t.first)
    (hcurrent : t'.current = t.current) (hprevious : t'.previous = t.previous) :
    t'.Grounded policy where
  first_iff := by rw [hfirst, hprevious, h.first_iff]
  offline := by rw [hfirst, hcurrent]; exact h.offline
  current_plan := by rw [hcurrent, h.current_plan]
  previous_ne := by rw [hprevious, hcurrent]; exact h.previous_ne

theorem shows_current (h : t.line = sinceText t.current) :
    ∃ rest, t.line = t.current.state.text ++ " since " ++ t.current.date.renderPlain ++ rest :=
  ⟨"", h.trans String.append_empty.symm⟩

theorem consistent_create (policy : Policy) (now : Nat) (date : Utc) :
    (create policy now date).Consistent policy where
  first_iff := by simp [create]
  offline _ := rfl
  current_plan := rfl
  previous_ne := by simp [create]
  nothing_pending _ := rfl
  pending := by simp [create]
  line _ := shows_current rfl

/-- The ways in which an observation can go. -/
inductive Observes (policy : Policy) (t : Tracker) (s : InstanceState) (now : Nat) (date : Utc) :
    Tracker × Option Attempt → Prop
  | confirms : s = t.current.state → Observes policy t s now date (t.confirm, none)
  | persists {p : Standing} {due : Option Attempt} : s ≠ t.current.state → t.pending = some p →
      p.state = s → (∀ x, due = some x → x = ⟨s, (policy.rule s).plan⟩) →
      Observes policy t s now date (t, due)
  | begins : s ≠ t.current.state → t.first = true →
      Observes policy t s now date (t, some ⟨s, (policy.rule s).plan⟩)
  | awaits : s ≠ t.current.state → t.first = false → (policy.rule s).after.toNanos ≠ 0 →
      Observes policy t s now date (t.await (standing policy s now date), none)
  | hurries : s ≠ t.current.state → t.first = false →
      Observes policy t s now date
        (t.await (standing policy s now date), some ⟨s, (policy.rule s).plan⟩)

theorem observes_observe (grounded : t.Grounded policy) :
    Observes policy t s now date (t.observe policy s now date) := by
  unfold observe
  by_cases hcurrent : s = t.current.state
  · simpa only [hcurrent, if_true] using Observes.confirms rfl
  · simp only [hcurrent, if_false]
    cases hpending : t.pending.filter (·.state = s) with
    | some p =>
        obtain ⟨hp, hstate⟩ := Option.filter_eq_some_iff.1 hpending
        refine .persists hcurrent hp (by simpa using hstate) fun x hx => ?_
        split at hx
        · exact (Option.some.inj hx).symm
        · contradiction
    | none =>
        cases hfirst : t.first with
        | true => simpa [grounded.offline hfirst] using Observes.begins hcurrent hfirst
        | false =>
            cases hzero : (policy.rule s).after.isZero with
            | true => simpa using Observes.hurries hcurrent hfirst
            | false =>
                have hdelayed : (policy.rule s).after.toNanos ≠ 0 := by
                  rw [ne_eq, ← Duration.isZero_iff, hzero]
                  exact Bool.false_ne_true
                simpa using Observes.awaits hcurrent hfirst hdelayed

namespace Consistent

theorem confirm (h : t.Consistent policy) : t.confirm.Consistent policy := by
  unfold Tracker.confirm
  split
  · exact {
      toGrounded := h.toGrounded.of_same rfl rfl rfl
      nothing_pending := fun _ => rfl
      pending := by simp
      line := fun _ => shows_current rfl }
  · exact h

theorem await (h : t.Consistent policy) (hother : s ≠ t.current.state) (hfirst : t.first = false)
    (hdelayed : (policy.rule s).after.toNanos ≠ 0) :
    (t.await (standing policy s now date)).Consistent policy where
  toGrounded := h.toGrounded.of_same rfl rfl rfl
  nothing_pending := by simp [Tracker.await, hfirst]
  pending := by
    rintro p hp
    obtain rfl := Option.some.inj hp
    exact ⟨hother, hdelayed, rfl, rfl⟩
  line := by simp [Tracker.await]

/-- An observation that leads to nothing leaves everything in order. -/
theorem observe_none (h : t.Consistent policy)
    (quiet : (t.observe policy s now date).2 = none) :
    (t.observe policy s now date).1.Consistent policy := by
  have hways : Observes policy t s now date _ := observes_observe h.toGrounded
  generalize t.observe policy s now date = outcome at hways quiet
  cases hways with
  | confirms => exact h.confirm
  | persists => exact h
  | begins => contradiction
  | awaits hother hfirst hdelayed => exact h.await hother hfirst hdelayed
  | hurries => contradiction

/-- An observation that leads to an attempt leaves what the attempt starts from. -/
theorem observe_some (h : t.Consistent policy)
    (attempted : (t.observe policy s now date).2 = some x) :
    (t.observe policy s now date).1.Grounded policy ∧
      (t.observe policy s now date).1.Warrants policy x := by
  have hways : Observes policy t s now date _ := observes_observe h.toGrounded
  generalize t.observe policy s now date = outcome at hways attempted
  cases hways with
  | confirms => contradiction
  | persists hother _ _ hdue =>
      obtain rfl := hdue x attempted
      exact ⟨h.toGrounded, hother, rfl⟩
  | begins hother =>
      obtain rfl := Option.some.inj attempted
      exact ⟨h.toGrounded, hother, rfl⟩
  | awaits => contradiction
  | hurries hother =>
      obtain rfl := Option.some.inj attempted
      exact ⟨h.toGrounded.of_same rfl rfl rfl, hother, rfl⟩

theorem nextWait (h : t.Consistent policy) : t.nextWait.2.Consistent policy := by
  unfold Tracker.nextWait
  split
  · exact {
      toGrounded := h.toGrounded.of_same rfl rfl rfl
      nothing_pending := h.nothing_pending
      pending := fun s hs => by
        obtain ⟨hother, hdelayed, hplan, hline⟩ := h.pending s hs
        exact ⟨hother, hdelayed, hplan, hline⟩
      line := h.line }
  · exact h

end Consistent

theorem Warrants.commit (warranted : t.Warrants policy x) :
    (t.commit x now date).Consistent policy where
  first_iff := by simp [Tracker.commit]
  offline := by simp [Tracker.commit]
  current_plan := warranted.plan_eq
  previous_ne := by
    intro s hs
    obtain rfl := Option.some.inj hs
    exact warranted.ne_current.symm
  nothing_pending _ := rfl
  pending := by simp [Tracker.commit]
  line _ := shows_current rfl

theorem Grounded.fail (h : t.Grounded policy) : (t.fail x).Consistent policy where
  toGrounded := h.of_same rfl rfl rfl
  nothing_pending _ := rfl
  pending := by simp [Tracker.fail]
  line _ := ⟨_, rfl⟩

theorem Grounded.settle (h : t.Grounded policy) (warranted : t.Warrants policy x) (succeeded : Bool) :
    (t.settle x succeeded now date).Consistent policy := by
  cases succeeded with
  | true => exact warranted.commit
  | false => exact h.fail

end Tracker

namespace Adjuster

open Tracker (Consistent Grounded Warrants)

/-- What holds of an adjuster, and of one that makes an attempt. -/
structure Tracks (policy : Policy) (a : Adjuster) : Prop where
  policy_eq : a.policy = policy
  consistent : ¬ a.IsAttempting → a.tracker.Consistent policy
  attempting : ∀ x now, a.stage = .attempting x now →
    a.tracker.Grounded policy ∧ a.tracker.Warrants policy x

variable {policy : Policy} {a a' : Adjuster} {attempt : Option Attempt}

theorem Tracks.of_consistent (hpolicy : a.policy = policy) (hstage : ¬ a.IsAttempting)
    (h : a.tracker.Consistent policy) : a.Tracks policy :=
  ⟨hpolicy, fun _ => h, fun x now hx => absurd ⟨x, now, hx⟩ hstage⟩

theorem tracks_create (policy : Policy) (timeout : Duration) (now : Nat) (date : Utc) :
    (create policy timeout now date).Tracks policy :=
  .of_consistent rfl (by simp [create, IsAttempting]) (Tracker.consistent_create policy now date)

theorem tracks_rest (hpolicy : a.policy = policy) (h : a.tracker.Consistent policy) :
    a.rest.Tracks policy := by
  obtain ⟨hsame, -, hstage⟩ := a.rest_frame
  refine .of_consistent (hsame.trans hpolicy) hstage ?_
  unfold rest
  split
  · exact h.nextWait
  · exact h

theorem tracks_check {state : InstanceState} {now : Nat} {date : Utc} (hpolicy : a.policy = policy)
    (h : a.tracker.Consistent policy) (taken : a.check state now date = (a', attempt)) :
    a'.Tracks policy := by
  subst hpolicy
  unfold check at taken
  split at taken
  · next tracker hobserved =>
      obtain ⟨rfl, -⟩ := Prod.mk.inj taken
      have hquiet := h.observe_none (congrArg Prod.snd hobserved)
      rw [hobserved] at hquiet
      exact tracks_rest rfl hquiet
  · next tracker x hobserved =>
      obtain ⟨rfl, -⟩ := Prod.mk.inj taken
      have hattempt := h.observe_some (congrArg Prod.snd hobserved)
      rw [hobserved] at hattempt
      refine ⟨rfl, fun hstage => absurd ⟨x, now, rfl⟩ hstage, fun y since hy => ?_⟩
      cases hy
      exact hattempt

theorem tracks_step {action : AdjusterAction} (h : a.Tracks policy)
    (taken : a.step action = some (a', attempt)) : a'.Tracks policy := by
  cases goes_of_step taken with
  | moves _ hidle hstage =>
      exact .of_consistent h.policy_eq (fun ⟨x, now, hx⟩ => hstage x now hx) (h.consistent hidle)
  | @checks _ _ _ _ running _ _ hidle hcheck =>
      exact tracks_check (a := { a with running }) h.policy_eq (h.consistent hidle) hcheck
  | settles hattempting =>
      obtain ⟨hgrounded, hwarranted⟩ := h.attempting _ _ hattempting
      exact tracks_rest h.policy_eq (hgrounded.settle hwarranted _)

/-- A step of the adjuster, with the attempt that it makes as its event. -/
def act (a : Adjuster) (action : AdjusterAction) : Option (Adjuster × List Attempt) :=
  (a.step action).map (fun (a, attempt) => (a, attempt.toList))

/-- Whatever is observed and whenever, and whether changes succeed or fail, the tracker is
consistent whenever no attempt is being made. -/
theorem consistent_between_attempts {policy : Policy} {timeout : Duration} {now : Nat} {date : Utc}
    {steps : List (Step Adjuster AdjusterAction Attempt)} {last : Adjuster}
    (run : Run act (create policy timeout now date) steps last) (settled : ¬ last.IsAttempting) :
    last.tracker.Consistent policy := by
  have htracks : last.Tracks policy := by
    refine run.invariant (tracks_create policy timeout now date) fun {a a' action _} taken h => ?_
    obtain ⟨⟨after, attempt⟩, hstep, heq⟩ := Option.map_eq_some_iff.1 taken
    cases heq
    exact tracks_step h hstep
  exact htracks.consistent settled

/-- The first change is refused and then made, and then a standby is seen that has to persist. -/
def observing : List (Step Adjuster AdjusterAction Attempt) × Adjuster :=
  Run.follow act (create patient .zero 0 .epoch)
    [.tell .active 0 .epoch, .settled false .epoch, .tell .active 1000000000 .epoch,
      .settled true .epoch, .tell .standby 2000000000 .epoch]

theorem consistent_between_attempts_awaiting :
    Run act (create patient .zero 0 .epoch) observing.1 observing.2 ∧
      ¬ observing.2.IsAttempting ∧
      observing.2.tracker.pending = some ⟨.standby, "replica", 2000000000, .epoch⟩ ∧
      observing.2.tracker.line = "pending standby since 1970-01-01 00:00:00 UTC" := by
  have hrun : Run act (create patient .zero 0 .epoch) observing.1 observing.2 := Run.of_follow ..
  have hidle : observing.2.stage = .idle := by decide +kernel
  have hsettled : ¬ observing.2.IsAttempting := by simp [IsAttempting, hidle]
  have hpending : observing.2.tracker.pending = some ⟨.standby, "replica", 2000000000, .epoch⟩ := by
    decide +kernel
  have hconsistent := consistent_between_attempts hrun hsettled
  have hline := (hconsistent.pending _ hpending).line_eq
  have htext : Utc.epoch.renderPlain = "1970-01-01 00:00:00 UTC" := by decide +kernel
  exact ⟨hrun, hsettled, hpending, by rw [hline, htext]; rfl⟩

end Adjuster

end Cadence
