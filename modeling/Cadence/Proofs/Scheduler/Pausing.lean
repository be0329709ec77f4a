import Cadence.Proofs.Scheduler.Moves
import Mathlib.Data.List.DropRight

/-!
# What ends a pause

A pause is a flag, and every plan that goes live clears it, whoever asked for
that plan and when.  So a pause lasts until a change of plan is activated.  If no
change was outstanding when the pause began, that is one asked for since.
-/

namespace Cadence.Scheduler

abbrev History := List (Step Scheduler Move SchedulerEvent)

/-- The part of a history that lies behind its last pause. -/
def sincePause (history : History) : History :=
  history.rtakeWhile (fun y => y.action ≠ .act .pause)

def Activated (history : History) (change : Nat) : Prop :=
  ∃ y ∈ history, .activated change ∈ y.events

def Calls (history : History) (caller : Nat) : Prop :=
  ∃ y ∈ history, y.before.nextId = caller ∧
    ∃ state plan, y.action = .act (.call (.change state plan))

/-- In this history the caller has its change accepted under this number. -/
def AcceptedFor (history : History) (caller change : Nat) : Prop :=
  ∃ y ∈ history, y.before.nextId = change ∧ ∃ later, y.before.Accepts y.action caller later

def Waits (s : Scheduler) (caller : Nat) : Prop :=
  ∃ asking state plan, s.callers.get? caller = some asking ∧ asking.request = .change state plan

def Underway (s : Scheduler) (change : Nat) : Prop :=
  ∃ c, s.changes.get? change = some c ∧ c.stage ≠ .ended

/-- In this history somebody asks for the change and has it accepted. -/
def Asked (history : History) (change : Nat) : Prop :=
  ∃ caller, Calls history caller ∧ AcceptedFor history caller change

/-- The change has been asked for before: it is under way at `s`, or its caller waits there and has
it accepted in this history. -/
def Outstanding (s : Scheduler) (history : History) (change : Nat) : Prop :=
  Underway s change ∨ ∃ caller, Waits s caller ∧ AcceptedFor history caller change

theorem Calls.mono {history longer : History} {caller : Nat} (h : Calls history caller)
    (hsub : history ⊆ longer) : Calls longer caller := by
  obtain ⟨y, hy, hcalls⟩ := h
  exact ⟨y, hsub hy, hcalls⟩

theorem AcceptedFor.mono {history longer : History} {caller change : Nat}
    (h : AcceptedFor history caller change) (hsub : history ⊆ longer) :
    AcceptedFor longer caller change := by
  obtain ⟨y, hy, haccepted⟩ := h
  exact ⟨y, hsub hy, haccepted⟩

section Runs

variable {start last : Scheduler} {history : History}

theorem sincePause_snoc (y : Step Scheduler Move SchedulerEvent) :
    sincePause (history ++ [y]) =
      if y.action = .act .pause then [] else sincePause history ++ [y] := by
  by_cases hpause : y.action = .act .pause <;>
    simp [sincePause, hpause]

/-- Once there is a pause, it lasts just as long as no change is activated. -/
theorem paused_iff (run : Run move start history last) :
    last.paused = true ↔ (start.paused = true ∨ ∃ y ∈ history, y.action = .act .pause) ∧
      ∀ change, ¬ Activated (sincePause history) change := by
  induction run with
  | nil => simp [Activated, sincePause]
  | @snoc history s s' action events _ taken ih =>
      rw [(moved taken).paused, ih, sincePause_snoc]
      by_cases hpause : action = .act .pause
      · simp [hpause, Activated]
      · simp [hpause, Activated, forall_and, or_and_right, exists_or, and_assoc]

theorem sincePause_eq_self (h : ∀ y ∈ history, y.action ≠ .act .pause) :
    sincePause history = history :=
  List.rtakeWhile_eq_self_iff.2 fun y hy => by simpa using h y hy

theorem waits_origin (run : Run move start history last) {caller : Nat}
    (hwaits : Waits last caller) : Waits start caller ∨ Calls history caller := by
  induction run with
  | nil => exact .inl hwaits
  | @snoc history s s' action events _ taken ih =>
      obtain ⟨asking, state, plan, hcaller, hrequest⟩ := hwaits
      rcases (moved taken).callers caller asking hcaller with ⟨before, hbefore, hsame⟩ |
        ⟨hnew, hcall⟩
      · have hbefore := ih ⟨before, state, plan, hbefore, hsame.trans hrequest⟩
        exact hbefore.imp_right (·.mono (List.subset_append_left _ _))
      · rw [hrequest] at hcall
        refine .inr ⟨_, List.mem_append_right _ (List.mem_singleton_self _), hnew.symm, state, plan, ?_⟩
        simpa using hcall

theorem change_origin (run : Run move start history last) {change : Nat} {later : PlanChange}
    (hlater : last.changes.get? change = some later) :
    (∃ c, start.changes.get? change = some c ∧ c.Becomes later) ∨
      ∃ caller, AcceptedFor history caller change ∧
        (Waits start caller ∨ Calls history caller) := by
  induction run generalizing later with
  | nil => exact .inl ⟨later, hlater, .refl later⟩
  | @snoc history s s' action events run taken ih =>
      rcases (moved taken).changes change later hlater with ⟨mid, hmid, hbecomes⟩ |
        ⟨hnew, caller, haccepts, -⟩
      · have hsub : history ⊆ history ++ [⟨s, action, s', events⟩] := List.subset_append_left _ _
        refine (ih hmid).imp ?_ ?_
        · rintro ⟨c, hc, hmid⟩
          exact ⟨c, hc, hmid.trans hbecomes⟩
        · rintro ⟨caller, haccepted, horigin⟩
          exact ⟨caller, haccepted.mono hsub, horigin.imp_right (·.mono hsub)⟩
      · have ⟨_, asking, name, hcaller, hrequest, _⟩ := haccepts
        refine .inr ⟨caller, ?_, ?_⟩
        · exact ⟨_, List.mem_append_right _ (List.mem_singleton_self _), hnew.symm, later, haccepts⟩
        · have hwaits := waits_origin run ⟨asking, later.state, name, hcaller, hrequest⟩
          exact hwaits.imp_right (·.mono (List.subset_append_left _ _))

theorem activated_origin (run : Run move start history last) {change : Nat}
    (hactivated : Activated history change) :
    Asked history change ∨ Outstanding start history change := by
  obtain ⟨y, hy, hevent⟩ := hactivated
  obtain ⟨earlier, rest, rfl⟩ := List.append_of_mem hy
  obtain ⟨before, taken, -⟩ := run.taken
  obtain ⟨c, hc, hstage⟩ := (moved taken).activated change hevent
  have hsub : earlier ⊆ earlier ++ y :: rest := List.subset_append_left _ _
  rcases change_origin before hc with ⟨first, hfirst, hbecomes⟩ | ⟨caller, haccepted, horigin⟩
  · exact .inr (.inl ⟨first, hfirst, fun hended => hstage (hbecomes.ended hended)⟩)
  · rcases horigin with hwaits | hcalls
    · exact .inr (.inr ⟨caller, hwaits, haccepted.mono hsub⟩)
    · exact .inl ⟨caller, hcalls.mono hsub, haccepted.mono hsub⟩

theorem orderAt_of_paused (hpaused : last.paused = true) (tick : Nat) :
    last.orderAt tick = none := by
  simp [orderAt, hpaused]

theorem not_paused_of_handed {action : Move} {next : Scheduler} {events : List SchedulerEvent}
    (taken : last.move action = some (next, events)) {name : WorkerName} {order : Order}
    (handed : .handed name order ∈ events) : last.paused = false := by
  cases action with
  | post line =>
      cases taken
      simp at handed
  | act action =>
      obtain ⟨-, run, -, horder⟩ := handed_of_step taken handed
      cases hpaused : last.paused with
      | true => simp [orderAt_of_paused hpaused] at horder
      | false => rfl

theorem Activated.mono {longer : History} {change : Nat} (h : Activated history change)
    (hsub : history ⊆ longer) : Activated longer change := by
  obtain ⟨y, hy, hevent⟩ := h
  exact ⟨y, hsub hy, hevent⟩

section Pause

variable {p : Step Scheduler Move SchedulerEvent} {earlier later : History}

/-- A pause ends when a change is activated that has been asked for since or was outstanding. -/
theorem paused_iff_of_pause (run : Run move start (earlier ++ p :: later) last)
    (hp : p.action = .act .pause) :
    last.paused = true ↔
      ∀ change, Asked later change ∨ Outstanding p.after later change →
        ¬ Activated (sincePause later) change := by
  obtain ⟨-, pausing, following⟩ := run.taken
  rw [paused_iff following, and_iff_right (.inl ((moved pausing).paused.2 (.inl hp)))]
  constructor
  · exact fun hnone change _ => hnone change
  · intro hnone change hactivated
    have hsub : sincePause later ⊆ later := (List.rtakeWhile_suffix _ _).subset
    exact hnone change (activated_origin following (hactivated.mono hsub)) hactivated

theorem activated_of_handed (run : Run move start (earlier ++ p :: later) last)
    (hp : p.action = .act .pause) {action : Move} {next : Scheduler}
    {events : List SchedulerEvent} (taken : last.move action = some (next, events))
    {name : WorkerName} {order : Order} (handed : .handed name order ∈ events) :
    ∃ change, Activated (sincePause later) change ∧
      (Asked later change ∨ Outstanding p.after later change) := by
  have hlast := not_paused_of_handed taken handed
  have hsome := mt (paused_iff_of_pause run hp).2 (by simp [hlast])
  push Not at hsome
  obtain ⟨change, horigin, hactivated⟩ := hsome
  exact ⟨change, hactivated, horigin⟩

end Pause

end Runs

end Cadence.Scheduler
