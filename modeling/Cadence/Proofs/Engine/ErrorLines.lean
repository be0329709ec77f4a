import Cadence.Proofs.Engine.Coverage
import Cadence.Proofs.Engine.Recording

/-!
# Errors and their lines on the board

A round writes an error and its line together and clears them together.  The end
of a preparation forgets the errors of domains that are gone but leaves their
lines, and later rounds clear a line only along with an error.  So a line shows
an error that is recorded or one that was left behind, and the latter stays until
the domain fails again, even if the domain comes back and answers.
-/

namespace Cadence.Engine

/-- The end of a preparation has forgotten this error of a domain, and no round has recorded
another one since. -/
def Left (d text : String) (history : List (Step Engine EngineAction EngineEvent)) : Prop :=
  ∃ before x after, history = before ++ x :: after ∧ (∃ id, x.action = .prune id) ∧
    d ∉ x.before.live.collectors ∧ x.before.errors.get? d = some text ∧
    ∀ y ∈ after, ∀ error, verdict? d y ≠ some (some error)

variable {d text : String} {history : List (Step Engine EngineAction EngineEvent)}
variable {x : Step Engine EngineAction EngineEvent}

theorem left_snoc : Left d text (history ++ [x]) ↔
    (Left d text history ∧ ∀ error, verdict? d x ≠ some (some error)) ∨
      (∃ id, x.action = .prune id) ∧ d ∉ x.before.live.collectors ∧
        x.before.errors.get? d = some text := by
  constructor
  · rintro ⟨before, y, after, hsplit, hprune, hgone, herror, hsince⟩
    cases after using List.reverseRecOn with
    | nil =>
        obtain ⟨-, hx⟩ := List.append_inj' hsplit rfl
        obtain rfl := List.singleton_inj.1 hx
        exact .inr ⟨hprune, hgone, herror⟩
    | append_singleton after z =>
        rw [← List.cons_append, ← List.append_assoc] at hsplit
        obtain ⟨rfl, hx⟩ := List.append_inj' hsplit rfl
        obtain rfl := List.singleton_inj.1 hx
        exact .inl ⟨⟨before, y, after, rfl, hprune, hgone, herror,
          fun w hw => hsince w (List.mem_append_left _ hw)⟩, hsince x (by simp)⟩
  · rintro (⟨⟨before, y, after, rfl, hprune, hgone, herror, hsince⟩, hx⟩ | ⟨hprune, hgone, herror⟩)
    · refine ⟨before, y, after ++ [x], by simp, hprune, hgone, herror, fun z hz => ?_⟩
      rcases List.mem_append.1 hz with hz | hz
      · exact hsince z hz
      · obtain rfl := List.mem_singleton.1 hz
        exact hx
    · exact ⟨history, x, [], rfl, hprune, hgone, herror, by simp⟩

/-- The line of a domain shows its error, or one that was left behind; never both. -/
def Shows (e : Engine) (d : String) (history : List (Step Engine EngineAction EngineEvent)) : Prop :=
  (∀ text, e.line? d = some text ↔ e.errors.get? d = some text ∨ Left d text history) ∧
    ∀ text, Left d text history → e.errors.get? d = none

theorem Shows.snoc (h : Shows x.before d history)
    (taken : x.before.step x.action = some (x.after, x.events)) :
    Shows x.after d (history ++ [x]) := by
  obtain ⟨hline, hleft⟩ := h
  have notes := notes_of_step x taken d
  simp only [Shows, left_snoc]
  generalize verdict? d x = verdict at notes
  generalize x.action = action at notes
  cases notes with
  | nothing hsame hsameLine hkept =>
      have hnot : ∀ text, ¬ ((∃ id, action = .prune id) ∧ d ∉ x.before.live.collectors ∧
          x.before.errors.get? d = some text) :=
        fun text ⟨⟨id, hprune⟩, hgone, _⟩ => hgone (hkept id hprune)
      simpa only [hsame, hsameLine, hnot, or_false, reduceCtorEq, ne_eq, not_false_eq_true,
        implies_true, and_true] using And.intro hline hleft
  | failure herror hline' => simp [herror, hline']
  | success hnone hline' =>
      suffices h : ∀ text, x.after.line? d = some text ↔ Left d text history by simpa [hnone] using h
      intro text
      rw [hline']
      cases herror : x.before.errors.get? d with
      | none => simp [Table.mem_iff, herror, hline text]
      | some error =>
          -- while an error is recorded none has been left behind
          have hnot : ¬ Left d text history := fun h => by simp [hleft text h] at herror
          simp [Table.mem_iff, herror, hnot]
  | forgets hgone hnone hsameLine =>
      simp [hnone, hsameLine, hline, hgone, or_comm]

/--
The line of a domain shows its recorded error, or the error that the last
preparation to forget one of the domain has left behind and that no round has
replaced.
-/
theorem line_iff_error_or_left {settings : EngineSettings} {board : Board} {e : Engine}
    (run : Run step (create settings board) history e)
    (clean : ∀ d, board.get? (errorKey d) = none) (d text : String) :
    e.line? d = some text ↔ e.errors.get? d = some text ∨ Left d text history := by
  suffices h : Shows e d history from h.1 text
  induction run with
  | nil =>
      have hline : (create settings board).line? d = none := (line?_say _ _ d).trans (clean d)
      have hnone : (create settings board).errors.get? d = none := rfl
      simp [Shows, hline, hnone, Left]
  | @snoc steps e e' action events run taken ih =>
      exact ih.snoc (x := ⟨e, action, e', events⟩) taken

/-! ## A line that is left behind -/

/-- A domain fails, goes with the next plan, comes back with the one after that and answers. -/
def comingBack : List EngineAction :=
  goingLive 0 (planOf "a" "bad") ++ roundOf 1 "bad" (.failed ["query failed"]) ++
    goingLive 2 (planOf "b" "good") ++ goingLive 3 (planOf "c" "bad") ++ roundOf 4 "bad" (.values [])

def runOfComingBack : List (Step Engine EngineAction EngineEvent) × Engine :=
  Run.follow step (create {} ∅) comingBack

/-- Nothing is under way, the domain has no error and has answered since it is back, and still the
board has a line for its error. -/
theorem line_left_behind :
    Run step (create {} ∅) runOfComingBack.1 runOfComingBack.2 ∧
      runOfComingBack.2.preparations = ∅ ∧ runOfComingBack.2.rounds = ∅ ∧
      runOfComingBack.1.getLast?.bind (verdict? "bad") = some none ∧
      runOfComingBack.2.errors.get? "bad" = none ∧
      runOfComingBack.2.line? "bad" = some "query failed" := by
  refine ⟨Run.of_follow .., ?_⟩
  decide +kernel

theorem line_iff_error_or_left_comingBack :
    Run step (create {} ∅) runOfComingBack.1 runOfComingBack.2 ∧
      (∀ d, (∅ : Board).get? (errorKey d) = none) ∧ Left "bad" "query failed" runOfComingBack.1 := by
  have hrun : Run step (create {} ∅) runOfComingBack.1 runOfComingBack.2 := Run.of_follow ..
  have hclean : ∀ d, (∅ : Board).get? (errorKey d) = none := fun _ => rfl
  have hline : runOfComingBack.2.line? "bad" = some "query failed" := by decide +kernel
  have hnone : runOfComingBack.2.errors.get? "bad" = none := by decide +kernel
  refine ⟨hrun, hclean, ((line_iff_error_or_left hrun hclean "bad" "query failed").1 hline).resolve_left ?_⟩
  simp [hnone]

end Cadence.Engine
