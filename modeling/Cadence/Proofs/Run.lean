import Mathlib.Data.List.Induction

/-!
# Runs of a machine

A machine is a partial function from a state and an action to the next state and
the events that the action brings about.  A run is the list of the steps made so
far.  Whoever chooses the actions is free, so a statement about all runs is one
about every interleaving of the machine's parts.
-/

namespace Cadence

variable {σ α ε : Type}

structure Step (σ α ε : Type) where
  before : σ
  action : α
  after : σ
  events : List ε

/-- The steps follow one another from `start` to the last state. -/
inductive Run (step : σ → α → Option (σ × List ε)) (start : σ) : List (Step σ α ε) → σ → Prop
  | nil : Run step start [] start
  | snoc {steps : List (Step σ α ε)} {s s' : σ} {action : α} {events : List ε} :
      Run step start steps s → step s action = some (s', events) →
      Run step start (steps ++ [⟨s, action, s', events⟩]) s'

namespace Run

variable {step : σ → α → Option (σ × List ε)} {start last : σ} {steps : List (Step σ α ε)}

theorem snoc_iff {x : Step σ α ε} :
    Run step start (steps ++ [x]) last ↔
      Run step start steps x.before ∧ step x.before x.action = some (x.after, x.events) ∧
        x.after = last := by
  constructor
  · intro h
    generalize hall : steps ++ [x] = all at h
    cases h with
    | nil => simp at hall
    | snoc run taken =>
        obtain ⟨rfl, hx⟩ := List.append_inj' hall rfl
        obtain rfl := List.singleton_inj.1 hx
        exact ⟨run, taken, rfl⟩
  · rintro ⟨run, taken, rfl⟩
    exact run.snoc taken

/-- Every step of a run has been taken in the state that the steps before it lead to. -/
theorem taken {pre post : List (Step σ α ε)} {x : Step σ α ε}
    (run : Run step start (pre ++ x :: post) last) :
    Run step start pre x.before ∧ step x.before x.action = some (x.after, x.events) ∧
      Run step x.after post last := by
  induction post using List.reverseRecOn generalizing last with
  | nil =>
      obtain ⟨before, hx, rfl⟩ := snoc_iff.1 run
      exact ⟨before, hx, .nil⟩
  | append_singleton post y ih =>
      rw [← List.cons_append, ← List.append_assoc] at run
      obtain ⟨shorter, hy, rfl⟩ := snoc_iff.1 run
      obtain ⟨before, hx, rest⟩ := ih shorter
      exact ⟨before, hx, snoc_iff.2 ⟨rest, hy, rfl⟩⟩

theorem keeps {Inv : σ → Prop} {Allowed : Step σ α ε → Prop} (init : Inv start)
    (keep : ∀ x : Step σ α ε, Allowed x → step x.before x.action = some (x.after, x.events) →
      Inv x.before → Inv x.after)
    (run : Run step start steps last) (allowed : ∀ x ∈ steps, Allowed x) : Inv last := by
  induction run with
  | nil => exact init
  | snoc run taken ih =>
      have hpre := ih (fun x hx => allowed x (List.mem_append_left _ hx))
      exact keep _ (allowed _ (List.mem_append_right _ List.mem_cons_self)) taken hpre

theorem invariant {Inv : σ → Prop} (run : Run step start steps last) (init : Inv start)
    (keep : ∀ {s s' action events}, step s action = some (s', events) → Inv s → Inv s') :
    Inv last := by
  induction run with
  | nil => exact init
  | snoc run taken ih => exact keep taken ih

theorem invariant_before {Inv : σ → Prop} (run : Run step start steps last) (init : Inv start)
    (keep : ∀ {s s' action events}, step s action = some (s', events) → Inv s → Inv s')
    {x : Step σ α ε} (hx : x ∈ steps) :
    Inv x.before ∧ step x.before x.action = some (x.after, x.events) := by
  obtain ⟨pre, post, rfl⟩ := List.append_of_mem hx
  obtain ⟨before, taken, -⟩ := run.taken
  exact ⟨before.invariant init keep, taken⟩

/-- What never gets smaller is at each later step at least what it was at first. -/
theorem le_before {f : σ → Nat} (run : Run step start steps last)
    (grows : ∀ {s s' action events}, step s action = some (s', events) → f s ≤ f s')
    {x : Step σ α ε} (hx : x ∈ steps) : f start ≤ f x.before := by
  have hinit : f start ≤ f start := Nat.le_refl _
  exact (run.invariant_before hinit (fun taken hle => Nat.le_trans hle (grows taken)) hx).1

/-- Of two steps of a run one is the later, unless they are the same. -/
theorem eq_or_later {x y : Step σ α ε} (run : Run step start steps last) (hx : x ∈ steps)
    (hy : y ∈ steps) :
    x = y ∨ (∃ post, Run step x.after post last ∧ y ∈ post) ∨
      ∃ post, Run step y.after post last ∧ x ∈ post := by
  obtain ⟨pre, post, rfl⟩ := List.append_of_mem hx
  rcases List.mem_append.1 hy with hpre | hpost
  · obtain ⟨pre, mid, rfl⟩ := List.append_of_mem hpre
    rw [List.append_assoc, List.cons_append] at run
    exact .inr (.inr ⟨mid ++ x :: post, run.taken.2.2, by simp⟩)
  · rcases List.mem_cons.1 hpost with heq | hpost
    · exact .inl heq.symm
    · exact .inr (.inl ⟨post, run.taken.2.2, hpost⟩)

/-- Of what never gets smaller, no two steps make the same value grow. -/
theorem eq_of_grows {f : σ → Nat} {x y : Step σ α ε} (run : Run step start steps last)
    (le : ∀ {s s' action events}, step s action = some (s', events) → f s ≤ f s')
    (hx : x ∈ steps) (hy : y ∈ steps) (hgrows : f x.before < f x.after)
    (hgrows' : f y.before < f y.after) (same : f y.before = f x.before) : y = x := by
  rcases run.eq_or_later hx hy with rfl | ⟨post, rest, hpost⟩ | ⟨post, rest, hpost⟩
  · rfl
  · have hle := rest.le_before le hpost
    omega
  · have hle := rest.le_before le hpost
    omega

/-- A run is determined by its actions. -/
theorem eq_of_actions {others : List (Step σ α ε)} {last' : σ} (run : Run step start steps last)
    (other : Run step start others last')
    (same : others.map (·.action) = steps.map (·.action)) : others = steps ∧ last' = last := by
  induction run generalizing others last' with
  | nil =>
      cases other with
      | nil => exact ⟨rfl, rfl⟩
      | snoc _ _ => simp at same
  | @snoc steps s s' action events run taken ih =>
      induction others using List.reverseRecOn with
      | nil => simp at same
      | append_singleton others y _ =>
          obtain ⟨before, taken', rfl⟩ := snoc_iff.1 other
          simp only [List.map_append, List.map_cons, List.map_nil] at same
          obtain ⟨hactions, haction⟩ := List.append_inj' same rfl
          obtain ⟨rfl, hbefore⟩ := ih before hactions
          obtain haction : y.action = action := List.singleton_inj.1 haction
          rw [hbefore, haction, taken] at taken'
          obtain ⟨hafter, hevents⟩ := Prod.mk.inj (Option.some.inj taken')
          obtain ⟨_, _, _, _⟩ := y
          simp only at hbefore haction hafter hevents
          subst hbefore haction hafter hevents
          exact ⟨rfl, rfl⟩

theorem cons {x : Step σ α ε} (taken : step x.before x.action = some (x.after, x.events))
    (run : Run step x.after steps last) : Run step x.before (x :: steps) last := by
  induction run with
  | nil => exact snoc_iff.2 ⟨.nil, taken, rfl⟩
  | snoc _ next ih => exact ih.snoc next

theorem append {more : List (Step σ α ε)} {mid : σ} (run : Run step start steps mid)
    (rest : Run step mid more last) : Run step start (steps ++ more) last := by
  induction rest with
  | nil => rwa [List.append_nil]
  | snoc _ taken ih =>
      rw [← List.append_assoc]
      exact ih.snoc taken

/-- The steps that the machine makes when it follows the actions, and where they lead.  It stops
at an action that is not possible. -/
def follow (step : σ → α → Option (σ × List ε)) (start : σ) : List α → List (Step σ α ε) × σ
  | [] => ([], start)
  | action :: rest =>
      match step start action with
      | none => ([], start)
      | some (s, events) =>
          let (steps, last) := follow step s rest
          (⟨start, action, s, events⟩ :: steps, last)

theorem of_follow (step : σ → α → Option (σ × List ε)) (start : σ) (actions : List α) :
    Run step start (follow step start actions).1 (follow step start actions).2 := by
  induction actions generalizing start with
  | nil => exact .nil
  | cons action rest ih =>
      rw [follow]
      cases htaken : step start action with
      | none => exact .nil
      | some next => exact cons (x := ⟨start, action, next.1, next.2⟩) htaken (ih next.1)

end Run

end Cadence
