import Cadence.Proofs.Adjuster.Tracking
import Mathlib.Algebra.Ring.Nat

/-!
# The pace of observations

As long as the instance is offline, each wait for the next observation is twice
as long as the one before, up to half a minute.  A change that becomes pending
starts the waits over.  An outage can only be taken up as a change that has
become pending, and while that change is pending no wait of an earlier outage is
added, so every outage begins with the shortest wait.
-/

namespace Cadence

namespace Tracker

/-- Whether an observation makes its state pending: it is neither the current one nor pending
already, and the first change has been made. -/
def starts (t : Tracker) (s : InstanceState) : Bool :=
  s ≠ t.current.state && t.pending.map (·.state) ≠ some s && t.previous.isSome

variable {policy : Policy} {t : Tracker} {s : InstanceState} {x : Attempt} {now : Nat}
  {date : Utc}

theorem starts_iff : t.starts s = true ↔
    s ≠ t.current.state ∧ t.pending.filter (·.state = s) = none ∧ t.previous ≠ none := by
  have hpending : t.pending.map (·.state) ≠ some s ↔ t.pending.filter (·.state = s) = none := by
    cases t.pending <;> simp [Option.filter]
  simp [starts, hpending, Option.isSome_iff_ne_none, and_assoc]

/-- An observation starts the waits over if it makes its state pending, and leaves them otherwise. -/
theorem observe_wait (grounded : t.Grounded policy) (s : InstanceState) (now : Nat) (date : Utc) :
    (t.observe policy s now date).1.wait = if t.starts s then 1 else t.wait := by
  have hfirst := grounded.first_iff
  unfold observe
  by_cases hcurrent : s = t.current.state
  · have hnot : ¬ t.starts s = true := fun h => (starts_iff.1 h).1 hcurrent
    rw [if_pos hcurrent, if_neg hnot, confirm]
    split <;> rfl
  · rw [if_neg hcurrent]
    cases hpending : t.pending.filter (·.state = s) with
    | some p =>
        have hnot : ¬ t.starts s = true := fun h => by simp [(starts_iff.1 h).2.1] at hpending
        rw [if_neg hnot]
    | none =>
        cases hprevious : t.previous with
        | none =>
            have hnot : ¬ t.starts s = true := fun h => (starts_iff.1 h).2.2 hprevious
            have hone := hfirst.2 hprevious
            simp [hnot, hone, grounded.offline hone]
        | some earlier =>
            have hstarts : t.starts s = true := starts_iff.2 ⟨hcurrent, hpending, by simp [hprevious]⟩
            have hlater : t.first = false := by
              rw [Bool.eq_false_iff, ne_eq, hfirst, hprevious]
              simp
            simp [hstarts, hlater, await]

theorem observe_pending {p : Standing} (grounded : t.Grounded policy)
    (h : (t.observe policy s now date).1.pending = some p) :
    p.state = s ∧ t.starts s = true ∨ t.pending = some p := by
  have hfirst := grounded.first_iff
  unfold observe at h
  split at h
  · unfold confirm at h
    split at h
    · contradiction
    · exact .inr h
  · next hcurrent =>
      split at h
      · exact .inr h
      · next hpending =>
          split at h
          · exact .inr h
          · next hlater =>
              obtain rfl := Option.some.inj h
              refine .inl ⟨rfl, starts_iff.2 ⟨hcurrent, hpending, fun hnone => hlater ?_⟩⟩
              exact ⟨hfirst.2 hnone, grounded.offline (hfirst.2 hnone)⟩

/-- An attempt to go offline is made only while that is pending. -/
theorem observe_offline (h : t.Consistent policy)
    (attempted : (t.observe policy s now date).2 = some x) (hoffline : x.state = .offline) :
    t.starts s = true ∨ ∃ p, t.pending = some p ∧ p.state = .offline := by
  obtain ⟨-, warranted⟩ := h.observe_some attempted
  have hother : s ≠ t.current.state := by
    rw [← (t.observe_keeps policy s now date).1]
    simpa [eq_of_observe_attempt attempted] using warranted.ne_current
  obtain rfl : s = .offline := by simpa [eq_of_observe_attempt attempted] using hoffline
  cases hpending : t.pending.filter (·.state = .offline) with
  | some p =>
      obtain ⟨hp, hstate⟩ := Option.filter_eq_some_iff.1 hpending
      exact .inr ⟨p, hp, by simpa using hstate⟩
  | none =>
      refine .inl (starts_iff.2 ⟨hother, hpending, fun hnone => hother ?_⟩)
      exact (h.offline (h.first_iff.2 hnone)).symm

@[simp] theorem settle_wait {succeeded : Bool} :
    (t.settle x succeeded now date).wait = t.wait := by
  cases succeeded <;> rfl

end Tracker

namespace Adjuster

/-- The state that a step hands to the tracker. -/
def observed? (x : Step Adjuster AdjusterAction Attempt) : Option InstanceState :=
  match x.action, x.before.stage with
  | .take .., .observed s => some s
  | .tell s .., _ => some s
  | _, _ => none

/-- Whether a change becomes pending with the step. -/
def startsPending (x : Step Adjuster AdjusterAction Attempt) : Bool :=
  (observed? x).any x.before.tracker.starts

/-- Whether an observation is over with the step: nothing has to be attempted, or the attempt has
been settled. -/
def endsObservation (x : Step Adjuster AdjusterAction Attempt) : Bool :=
  match x.action with
  | .take .. | .tell .. => x.events.isEmpty
  | .settled .. => true
  | _ => false

/-- Whether the adjuster waits for the next observation of an instance that is offline. -/
def waitsOffline (a : Adjuster) : Bool :=
  match a.stage with
  | .waiting _ => a.tracker.current.state = .offline
  | _ => false

/-- How many waits while offline there have been since a change last became pending. -/
def offlineWaits (history : List (Step Adjuster AdjusterAction Attempt)) : Nat :=
  history.foldl (fun n x =>
    (if startsPending x then 0 else n) + if x.after.waitsOffline then 1 else 0) 0

theorem offlineWaits_snoc (history : List (Step Adjuster AdjusterAction Attempt))
    (x : Step Adjuster AdjusterAction Attempt) :
    offlineWaits (history ++ [x]) =
      (if startsPending x then 0 else offlineWaits history) +
        if x.after.waitsOffline then 1 else 0 := by
  simp [offlineWaits]

/-- The next wait while offline is the one that follows `n` such waits, and it is the first one as
long as the instance is about to be taken as offline. -/
structure Paces (n : Nat) (a : Adjuster) : Prop where
  wait : a.tracker.wait = min 30 (2 ^ n)
  pending : ∀ p, a.tracker.pending = some p → p.state = .offline → a.tracker.wait = 1
  attempting : ∀ x now, a.stage = .attempting x now → x.state = .offline → a.tracker.wait = 1
  waiting : ∀ seconds, a.stage = .waiting seconds →
    seconds = if a.tracker.current.state = .offline then min 30 (2 ^ (n - 1)) else Tracker.interval

variable {policy : Policy} {a a' : Adjuster} {attempt : Option Attempt} {n : Nat}

/-- Without the tracker nothing happens to the pace. -/
theorem Paces.moves {stage : AdjusterStage} {running : Bool} (h : a.Paces n)
    (hattempting : ∀ x now, stage ≠ .attempting x now) (hwaiting : ∀ seconds, stage ≠ .waiting seconds) :
    ({ a with stage, running } : Adjuster).Paces n where
  wait := h.wait
  pending := h.pending
  attempting x now hx := absurd hx (hattempting x now)
  waiting seconds hseconds := absurd hseconds (hwaiting seconds)

/-- The adjuster comes to rest, with a wait if it is to go on. -/
theorem paces_rest (hwait : a.tracker.wait = min 30 (2 ^ n)) (consistent : a.tracker.Consistent policy)
    (hpending : ∀ p, a.tracker.pending = some p → p.state = .offline → a.tracker.wait = 1) :
    a.rest.Paces (n + if a.rest.waitsOffline then 1 else 0) := by
  unfold rest
  cases a.running with
  | false => exact ⟨hwait, hpending, by simp, by simp⟩
  | true =>
      by_cases hoffline : a.tracker.current.state = .offline
      · have hdouble : min (2 * a.tracker.wait) 30 = min 30 (2 ^ (n + 1)) := by
          rw [hwait, Nat.pow_succ]
          omega
        simp only [Tracker.nextWait, hoffline, if_true, waitsOffline, decide_true]
        refine ⟨hdouble, fun p hp hstate => ?_, by simp, fun seconds hseconds => ?_⟩
        · exact absurd (hstate.trans hoffline.symm) (consistent.pending p hp).ne_current
        · cases hseconds
          simpa [hoffline] using hwait
      · simp only [Tracker.nextWait, hoffline, if_false, if_true, waitsOffline, decide_false,
          Bool.false_eq_true, Nat.add_zero]
        refine ⟨hwait, hpending, by simp, fun seconds hseconds => ?_⟩
        cases hseconds
        rw [if_neg hoffline]

theorem Paces.check {s : InstanceState} {now : Nat} {date : Utc} (h : a.Paces n)
    (consistent : a.tracker.Consistent a.policy) (taken : a.check s now date = (a', attempt)) :
    a'.Paces ((if a.tracker.starts s then 0 else n) + if a'.waitsOffline then 1 else 0) := by
  have hwait : (a.tracker.observe a.policy s now date).1.wait =
      min 30 (2 ^ (if a.tracker.starts s then 0 else n)) := by
    rw [Tracker.observe_wait consistent.toGrounded, h.wait]
    split <;> rfl
  have hpending : ∀ p, (a.tracker.observe a.policy s now date).1.pending = some p →
      p.state = .offline → (a.tracker.observe a.policy s now date).1.wait = 1 := by
    intro p hp hstate
    rw [Tracker.observe_wait consistent.toGrounded]
    rcases Tracker.observe_pending consistent.toGrounded hp with ⟨-, hstarts⟩ | hp
    · exact if_pos hstarts
    · split
      · rfl
      · exact h.pending p hp hstate
  unfold Adjuster.check at taken
  split at taken
  · next tracker hobserved =>
      obtain ⟨rfl, -⟩ := Prod.mk.inj taken
      have hquiet := consistent.observe_none (congrArg Prod.snd hobserved)
      rw [hobserved] at hwait hpending hquiet
      exact paces_rest hwait hquiet hpending
  · next tracker x hobserved =>
      obtain ⟨rfl, -⟩ := Prod.mk.inj taken
      have hoffline := Tracker.observe_offline consistent (congrArg Prod.snd hobserved)
      have hkept := Tracker.observe_wait consistent.toGrounded s now date
      rw [hobserved] at hwait hpending hkept
      refine ⟨hwait, hpending, fun y since hy hstate => ?_, by simp⟩
      cases hy
      rw [hkept]
      rcases hoffline hstate with hstarts | ⟨p, hp, hp'⟩
      · exact if_pos hstarts
      · split
        · rfl
        · exact h.pending p hp hp'

theorem Paces.snoc {history : List (Step Adjuster AdjusterAction Attempt)}
    {x : Step Adjuster AdjusterAction Attempt} (h : x.before.Paces (offlineWaits history))
    (tracks : x.before.Tracks policy)
    (taken : x.before.act x.action = some (x.after, x.events)) :
    x.after.Paces (offlineWaits (history ++ [x])) := by
  obtain ⟨a, action, a', events⟩ := x
  obtain ⟨⟨after, attempt⟩, hstep, heq⟩ := Option.map_eq_some_iff.1 taken
  obtain ⟨rfl, rfl⟩ := Prod.mk.inj heq
  obtain rfl := tracks.policy_eq
  rw [offlineWaits_snoc]
  cases action with
  | take now date =>
      simp only [step] at hstep
      split at hstep
      · next s hobserved =>
          have consistent := tracks.consistent (by simp [IsAttempting, hobserved])
          simpa [startsPending, observed?, hobserved] using h.check consistent (Option.some.inj hstep)
      · contradiction
  | tell s now date =>
      simp only [step] at hstep
      split at hstep
      · next hidle =>
          have consistent := tracks.consistent (by simp [IsAttempting, hidle])
          have hpaces : ({ a with running := false } : Adjuster).Paces (offlineWaits history) :=
            ⟨h.wait, h.pending, h.attempting, h.waiting⟩
          exact hpaces.check consistent (Option.some.inj hstep)
      · contradiction
  | settled succeeded date =>
      simp only [step] at hstep
      split at hstep
      · next x now hattempting =>
          cases hstep
          obtain ⟨hgrounded, hwarranted⟩ := tracks.attempting x now hattempting
          refine paces_rest ?_ (hgrounded.settle hwarranted succeeded) (by simp)
          simpa [startsPending, observed?] using h.wait
      · contradiction
  | standby answer =>
      simp only [step] at hstep
      split at hstep
      · cases hstep
        cases answer <;> exact h.moves (by simp) (by simp)
      · contradiction
  | observe _ | readOnly _ | wake | stop =>
      simp only [step] at hstep
      split at hstep
      · cases hstep
        exact h.moves (by simp) (by simp)
      · contradiction

theorem paces_of_run {timeout : Duration} {now : Nat} {date : Utc}
    {history : List (Step Adjuster AdjusterAction Attempt)} {last : Adjuster}
    (run : Run act (create policy timeout now date) history last) :
    last.Tracks policy ∧ last.Paces (offlineWaits history) := by
  induction run with
  | nil => exact ⟨tracks_create .., rfl, by simp [create, Tracker.create], by simp [create],
      by simp [create]⟩
  | @snoc steps a a' action events _ taken ih =>
      obtain ⟨⟨after, attempt⟩, hstep, heq⟩ := Option.map_eq_some_iff.1 taken
      cases heq
      exact ⟨tracks_step ih.1 hstep, ih.2.snoc (x := ⟨a, action, _, _⟩) ih.1 taken⟩

theorem rest_waits (running : a.rest.running = true) : ∃ seconds, a.rest.stage = .waiting seconds := by
  unfold rest at running ⊢
  cases hrunning : a.running with
  | true => exact ⟨_, rfl⟩
  | false => simp [hrunning] at running

theorem check_waits {s : InstanceState} {now : Nat} {date : Utc}
    (taken : a.check s now date = (a', none)) (running : a'.running = true) :
    ∃ seconds, a'.stage = .waiting seconds := by
  unfold check at taken
  split at taken
  · obtain ⟨rfl, -⟩ := Prod.mk.inj taken
    exact rest_waits running
  · simp at taken

/-- A step that ends an observation leaves an adjuster that is to go on waiting. -/
theorem waits_of_endsObservation {x : Step Adjuster AdjusterAction Attempt}
    (taken : x.before.act x.action = some (x.after, x.events)) (ends : endsObservation x = true)
    (running : x.after.running = true) : ∃ seconds, x.after.stage = .waiting seconds := by
  obtain ⟨a, action, a', events⟩ := x
  obtain ⟨⟨after, attempt⟩, hstep, heq⟩ := Option.map_eq_some_iff.1 taken
  obtain ⟨rfl, rfl⟩ := Prod.mk.inj heq
  cases action with
  | take now date =>
      obtain rfl : attempt = none := by cases attempt <;> simp_all [endsObservation]
      simp only [step] at hstep
      split at hstep
      · exact check_waits (Option.some.inj hstep) running
      · contradiction
  | tell s now date =>
      obtain rfl : attempt = none := by cases attempt <;> simp_all [endsObservation]
      simp only [step] at hstep
      split at hstep
      · exact check_waits (Option.some.inj hstep) running
      · contradiction
  | settled succeeded date =>
      simp only [step] at hstep
      split at hstep
      · cases hstep
        exact rest_waits running
      · contradiction
  | _ => contradiction

/-- An adjuster that becomes offline has settled an attempt to. -/
theorem attempting_of_offline {action : AdjusterAction} (hstep : a.step action = some (a', attempt))
    (before : a.tracker.current.state ≠ .offline) (after : a'.tracker.current.state = .offline) :
    ∃ x now succeeded date, a.stage = .attempting x now ∧ x.state = .offline ∧
      action = .settled succeeded date := by
  obtain ⟨-, ⟨-, -, -, hsame⟩ | ⟨_, _, -, -, -, hsame, -⟩ |
    ⟨x, now, succeeded, date, hsettled, -, hattempting, -, hcurrent⟩⟩ := step_cases hstep
  · rw [hsame] at after
    exact absurd after before
  · rw [hsame] at after
    exact absurd after before
  · rw [hcurrent] at after
    cases succeeded with
    | true => exact ⟨x, now, true, date, hattempting, after, hsettled⟩
    | false => exact absurd after before

/--
After each observation, unless it is not to go on, an adjuster waits for the next
one: as long as ever if the instance is not offline, and otherwise twice as long
as in the wait while offline before it, if there has been one since a change last
became pending, from a second up to half a minute.  An outage that has just been
taken up begins with a second, however long earlier ones have lasted.
-/
theorem paced_by_outage {policy : Policy} {timeout : Duration} {now : Nat} {date : Utc}
    {pre post : List (Step Adjuster AdjusterAction Attempt)}
    {x : Step Adjuster AdjusterAction Attempt} {last : Adjuster}
    (run : Run act (create policy timeout now date) (pre ++ x :: post) last) :
    (endsObservation x = true → x.after.running = true →
      ∃ seconds, x.after.stage = .waiting seconds) ∧
    ∀ seconds, x.after.stage = .waiting seconds →
      seconds = (if x.after.tracker.current.state = .offline then
        min 30 (2 ^ if startsPending x then 0 else offlineWaits pre) else Tracker.interval) ∧
      1 ≤ seconds ∧ seconds ≤ 30 ∧
      (x.before.tracker.current.state ≠ .offline → x.after.tracker.current.state = .offline →
        seconds = 1) := by
  obtain ⟨before, taken, -⟩ := run.taken
  obtain ⟨-, hbefore⟩ := paces_of_run before
  obtain ⟨-, hafter⟩ := paces_of_run (Run.snoc_iff.2 ⟨before, taken, rfl⟩)
  refine ⟨waits_of_endsObservation taken, fun seconds hstage => ?_⟩
  have hseconds : seconds = if x.after.tracker.current.state = .offline then
      min 30 (2 ^ if startsPending x then 0 else offlineWaits pre) else Tracker.interval := by
    rw [hafter.waiting seconds hstage, offlineWaits_snoc]
    refine if_ctx_congr Iff.rfl (fun hoffline => ?_) fun _ => rfl
    simp [waitsOffline, hstage, hoffline]
  have hpos : 0 < 2 ^ (if startsPending x then 0 else offlineWaits pre) := Nat.two_pow_pos _
  refine ⟨hseconds, ?_, ?_, fun hother hoffline => ?_⟩
  · rw [hseconds, Tracker.interval]
    split <;> omega
  · rw [hseconds, Tracker.interval]
    split <;> omega
  · obtain ⟨⟨after, attempt⟩, hstep, heq⟩ := Option.map_eq_some_iff.1 taken
    obtain ⟨rfl, -⟩ := Prod.mk.inj heq
    obtain ⟨y, since, succeeded, date, hattempting, hstate, haction⟩ :=
      attempting_of_offline hstep hother hoffline
    have hnot : startsPending x = false := by simp [startsPending, observed?, haction]
    have hwait := hbefore.attempting y since hattempting hstate
    rw [hbefore.wait] at hwait
    rw [hseconds, if_pos hoffline, hnot]
    exact hwait

/-- The actions of one observation, which ends in a wait that is then over. -/
def observingOnce (answer : ReadOnlyAnswer) (settled : List AdjusterAction) : List AdjusterAction :=
  [.standby false, .readOnly answer, .take 0 .epoch] ++ settled ++ [.wake]

/-- Offline for three observations, then active, and then offline again. -/
def outages : List (Step Adjuster AdjusterAction Attempt) × Adjuster :=
  Run.follow act (create patient .zero 0 .epoch) ([.observe true] ++
    observingOnce .failed [] ++ observingOnce .timedOut [] ++ observingOnce .failed [] ++
    observingOnce .writable [.settled true .epoch] ++
    [.standby false, .readOnly .failed, .take 0 .epoch, .settled true .epoch])

theorem outages_ne_nil : outages.1 ≠ [] := by
  decide +kernel

theorem paced_by_outage_again :
    ∃ pre x, Run act (create patient .zero 0 .epoch) (pre ++ [x]) outages.2 ∧
      (∃ y ∈ pre, y.after.stage = .waiting 4) ∧ endsObservation x = true ∧
      x.after.running = true ∧ x.after.stage = .waiting 1 := by
  have hrun : Run act (create patient .zero 0 .epoch) outages.1 outages.2 := Run.of_follow ..
  rw [← List.dropLast_append_getLast outages_ne_nil] at hrun
  have hends : endsObservation (outages.1.getLast outages_ne_nil) = true := by decide +kernel
  have hrunning : (outages.1.getLast outages_ne_nil).after.running = true := by decide +kernel
  obtain ⟨hwaits, hpace⟩ := paced_by_outage hrun
  obtain ⟨seconds, hstage⟩ := hwaits hends hrunning
  obtain rfl := (hpace seconds hstage).2.2.2 (by decide +kernel) (by decide +kernel)
  exact ⟨_, _, hrun, by decide +kernel, hends, hrunning, hstage⟩

end Adjuster

end Cadence
