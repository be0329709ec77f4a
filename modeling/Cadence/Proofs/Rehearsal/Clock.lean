import Cadence.Proofs.Run
import Cadence.Rehearsal.Clock

/-!
# The clock of a rehearsal

The clock chooses what is done next and when; what it chooses is a step of the
machine.  So whatever goes on in a rehearsal is a run of the machine, and what is
noted down is what the steps of this run bring about.
-/

namespace Cadence.Rehearsal

variable {σ α ε : Type} {scene : Scene σ α ε} {r r' r'' : Rehearsal σ α ε}

/-- What a run brings about, noted down while the clock goes from one time to another. -/
structure Noted (steps : List (Step σ α ε)) (first last : Nat) (notes : List (Nat × ε)) :
    Prop where
  events : notes.map (·.2) = steps.flatMap (·.events)
  inOrder : notes.Pairwise (fun note later => note.1 ≤ later.1)
  within : ∀ note ∈ notes, first ≤ note.1 ∧ note.1 ≤ last

theorem Noted.append {steps more : List (Step σ α ε)} {first mid last : Nat}
    {notes later : List (Nat × ε)} (h : Noted steps first mid notes)
    (h' : Noted more mid last later) (hfirst : first ≤ mid) (hlast : mid ≤ last) :
    Noted (steps ++ more) first last (notes ++ later) where
  events := by rw [List.map_append, List.flatMap_append, h.events, h'.events]
  inOrder := List.pairwise_append.2 ⟨h.inOrder, h'.inOrder, fun note hnote next hnext =>
    Nat.le_trans (h.within note hnote).2 (h'.within next hnext).1⟩
  within note hnote := by
    rcases List.mem_append.1 hnote with hnote | hnote
    · exact ⟨(h.within note hnote).1, Nat.le_trans (h.within note hnote).2 hlast⟩
    · exact ⟨Nat.le_trans hfirst (h'.within note hnote).1, (h'.within note hnote).2⟩

/-- From one rehearsal to the other the machine makes a run, the clock does not go back, and
what the run brings about is noted down after what has been noted before. -/
def Enacts (scene : Scene σ α ε) (r r' : Rehearsal σ α ε) : Prop :=
  r.now ≤ r'.now ∧ ∃ steps notes, Run scene.step r.machine steps r'.machine ∧
    Noted steps r.now r'.now notes ∧ r'.eventsInOrder = r.eventsInOrder ++ notes

namespace Enacts

/-- Nothing happens while the clock goes on. -/
theorem of_eq (hmachine : r'.machine = r.machine) (hevents : r'.events = r.events)
    (hnow : r.now ≤ r'.now) : Enacts scene r r' := by
  refine ⟨hnow, [], [], ?_, ⟨rfl, .nil, by simp⟩, ?_⟩
  · rw [hmachine]
    exact .nil
  · rw [eventsInOrder, eventsInOrder, hevents, List.append_nil]

theorem refl (r : Rehearsal σ α ε) : Enacts scene r r := of_eq rfl rfl (Nat.le_refl _)

/-- A run that leads to a rehearsal goes on with what the rehearsal does. -/
theorem run {start : σ} (h : Enacts scene r r') (run : ∃ steps, Run scene.step start steps r.machine) :
    ∃ steps, Run scene.step start steps r'.machine := by
  obtain ⟨steps, run⟩ := run
  obtain ⟨-, more, -, rest, -⟩ := h
  exact ⟨steps ++ more, run.append rest⟩

theorem trans (h : Enacts scene r r') (h' : Enacts scene r' r'') : Enacts scene r r'' := by
  obtain ⟨hnow, steps, notes, run, noted, hevents⟩ := h
  obtain ⟨hnow', more, later, run', noted', hevents'⟩ := h'
  refine ⟨Nat.le_trans hnow hnow', steps ++ more, notes ++ later, run.append run',
    noted.append noted' hnow hnow', ?_⟩
  rw [hevents', hevents, List.append_assoc]

end Enacts

/-! ## One instant -/

/-- What a rehearsal does before the clock goes on. -/
def Happens (scene : Scene σ α ε) (r r' : Rehearsal σ α ε) : Prop :=
  Enacts scene r r' ∧ r'.now = r.now

namespace Happens

theorem of_eq (hmachine : r'.machine = r.machine) (hevents : r'.events = r.events)
    (hnow : r'.now = r.now) : Happens scene r r' :=
  ⟨.of_eq hmachine hevents (Nat.le_of_eq hnow.symm), hnow⟩

theorem refl (r : Rehearsal σ α ε) : Happens scene r r := of_eq rfl rfl rfl

theorem trans (h : Happens scene r r') (h' : Happens scene r' r'') : Happens scene r r'' :=
  ⟨h.1.trans h'.1, h'.2.trans h.2⟩

theorem foldl {β : Type} {f : Rehearsal σ α ε → β → Rehearsal σ α ε}
    (h : ∀ r x, Happens scene r (f r x)) (xs : List β) (r : Rehearsal σ α ε) :
    Happens scene r (xs.foldl f r) := by
  induction xs generalizing r with
  | nil => exact refl r
  | cons x xs ih => exact (h r x).trans (ih (f r x))

end Happens

theorem happens_act {action : α} (h : r.act scene action = some r') : Happens scene r r' := by
  obtain ⟨⟨machine, events⟩, taken, rfl⟩ := Option.map_eq_some_iff.1 h
  refine ⟨⟨Nat.le_refl _, [⟨r.machine, action, machine, events⟩], events.map (r.now, ·),
    Run.nil.snoc taken, ⟨?_, ?_, ?_⟩, ?_⟩, rfl⟩
  · simp [Function.comp_def]
  · exact List.pairwise_map.2 (List.pairwise_of_forall fun _ _ => Nat.le_refl _)
  · intro note hnote
    obtain ⟨event, -, rfl⟩ := List.mem_map.1 hnote
    exact ⟨Nat.le_refl _, Nat.le_refl _⟩
  · simp [eventsInOrder]

theorem happens_refresh (r : Rehearsal σ α ε) : Happens scene r (r.refresh scene) := by
  refine .trans ?_ (.foldl (fun r w => ?_) _ _)
  · exact .of_eq rfl rfl rfl
  · exact .of_eq rfl rfl rfl

theorem happens_perform (r : Rehearsal σ α ε) (actions : List α) :
    Happens scene r (r.perform scene actions) := by
  refine .trans (.foldl (fun r action => ?_) actions r) (happens_refresh _)
  cases h : r.act scene action with
  | none => exact .refl r
  | some next => exact happens_act h

theorem happens_strike (h : r.strike scene = some r') : Happens scene r r' := by
  unfold strike at h
  split at h
  · obtain rfl := Option.some.inj h
    refine .trans ?_ (happens_perform _ _)
    exact .of_eq rfl rfl rfl
  · split at h
    · obtain rfl := Option.some.inj h
      refine .trans ?_ (happens_perform _ _)
      exact .of_eq rfl rfl rfl
    · cases h

theorem happens_followPrompt (h : r.followPrompt scene = some r') : Happens scene r r' := by
  obtain ⟨next, hnext, rfl⟩ := Option.map_eq_some_iff.1 h
  obtain ⟨action, -, hact⟩ := List.exists_of_findSome?_eq_some hnext
  exact (happens_act hact).trans (happens_refresh next)

theorem happens_turn (h : r.turn scene = some r') : Happens scene r r' := by
  rcases Option.or_eq_some_iff.1 h with h | ⟨-, h⟩
  · exact happens_strike h
  · exact happens_followPrompt h

/-! ## The clock goes on -/

/-- When nothing is left to do, whatever comes next by itself lies ahead. -/
theorem lt_of_nextDue {due : Nat} (hturn : r.turn scene = none) (hdue : r.nextDue = some due) :
    r.now < due := by
  have hstrike : r.strike scene = none := (Option.or_eq_none_iff.1 hturn).1
  unfold strike at hstrike
  split at hstrike
  · cases hstrike
  · next htimers =>
      split at hstrike
      · cases hstrike
      · next happointments =>
          rcases List.mem_append.1 (List.min?_mem hdue) with hmem | hmem
          · obtain ⟨best, hbest, rfl⟩ := Option.map_eq_some_iff.1 (Option.mem_toList.1 hmem)
            simpa using Option.filter_eq_none_iff.1 htimers best hbest
          · simpa using Option.filter_eq_none_iff.1 happointments due (Option.mem_toList.1 hmem)

theorem enacts_goOn {goal : Rehearsal σ α ε → Bool} {deadline : Nat} (steps : Nat)
    (hdeadline : r.now ≤ deadline) :
    Enacts scene r (r.goOn scene goal deadline steps) ∧
      (r.goOn scene goal deadline steps).now ≤ deadline := by
  induction steps generalizing r with
  | zero => exact ⟨.refl r, hdeadline⟩
  | succ steps ih =>
      rw [goOn]
      split
      · exact ⟨.refl r, hdeadline⟩
      · split
        · next next hturn =>
            obtain ⟨henacts, hnow⟩ := happens_turn hturn
            obtain ⟨hrest, hend⟩ := ih (r := next) (hnow ▸ hdeadline)
            exact ⟨henacts.trans hrest, hend⟩
        · next hturn =>
            split
            · next due hdue =>
                split
                · next hle =>
                    have hlt : r.now < due := lt_of_nextDue hturn hdue
                    have hwait : Enacts scene r { r with now := due } :=
                      .of_eq rfl rfl (Nat.le_of_lt hlt)
                    obtain ⟨hrest, hend⟩ := ih (r := { r with now := due }) hle
                    exact ⟨hwait.trans hrest, hend⟩
                · exact ⟨.of_eq rfl rfl hdeadline, Nat.le_refl _⟩
            · exact ⟨.of_eq rfl rfl hdeadline, Nat.le_refl _⟩

theorem enacts_pass (r : Rehearsal σ α ε) (millis : Nat) :
    Enacts scene r (r.pass scene millis) :=
  (enacts_goOn patience (Nat.le_add_right _ _)).1

theorem enacts_settle (r : Rehearsal σ α ε) : Enacts scene r (r.settle scene) := enacts_pass r 0

theorem enacts_await (r : Rehearsal σ α ε) (goal : Rehearsal σ α ε → Bool) :
    Enacts scene r (r.await scene goal) :=
  (enacts_goOn patience (Nat.le_add_right _ _)).1

theorem enacts_jump (r : Rehearsal σ α ε) (millis : Nat) : Enacts scene r (r.jump scene millis) := by
  refine .trans ?_ (enacts_settle _)
  exact .of_eq rfl rfl (Nat.le_add_right _ _)

theorem enacts_perform (r : Rehearsal σ α ε) (actions : List α) :
    Enacts scene r (r.perform scene actions) := (happens_perform r actions).1

theorem enacts_appoint (r : Rehearsal σ α ε) (millis : Nat) (actions : List α) :
    Enacts scene r (r.appoint millis actions) := .of_eq rfl rfl (Nat.le_refl _)

end Cadence.Rehearsal
