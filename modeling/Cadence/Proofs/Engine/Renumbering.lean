import Cadence.Proofs.Engine.Consistency
import Mathlib.Data.Nat.Nth

/-!
# Other numbers for the same things

Preparations, rounds and collectors have numbers, which are given in turn.  If
some of them had never been made, the later ones would have smaller numbers; but
for that their names would be all that differs.
-/

namespace Cadence

/-- Some numbers are left out, and those behind them move up. -/
structure Renumbering where
  omitted : List Nat

namespace Renumbering

variable (ρ : Renumbering) {α β : Type} {R : α → β → Prop}

def Keeps (n : Nat) : Prop := n ∉ ρ.omitted

instance (n : Nat) : Decidable (ρ.Keeps n) := inferInstanceAs (Decidable (n ∉ ρ.omitted))

/-- How many of the smaller numbers are kept. -/
def apply (n : Nat) : Nat := Nat.count (· ∉ ρ.omitted) n

instance : CoeFun Renumbering (fun _ => Nat → Nat) := ⟨apply⟩

@[simp] theorem apply_zero : ρ 0 = 0 := Nat.count_zero _

variable {ρ} {n m : Nat}

theorem apply_succ (h : ρ.Keeps n) : ρ (n + 1) = ρ n + 1 :=
  Nat.count_succ_eq_succ_count_iff.2 h

theorem apply_succ_of_omitted (h : ¬ ρ.Keeps n) : ρ (n + 1) = ρ n :=
  Nat.count_succ_eq_count_iff.2 h

theorem eq_of_apply (hn : ρ.Keeps n) (hm : ρ.Keeps m) (h : ρ n = ρ m) : n = m :=
  Nat.count_injective hn hm h

theorem apply_eq_iff (hn : ρ.Keeps n) (hm : ρ.Keeps m) : ρ n = ρ m ↔ n = m :=
  ⟨eq_of_apply hn hm, congrArg ρ⟩

theorem exists_keeps (k : Nat) : ∃ n, ρ.Keeps n ∧ ρ n = k := by
  have hinfinite : {n | n ∉ ρ.omitted}.Infinite := (List.finite_toSet ρ.omitted).infinite_compl
  exact ⟨_, Nat.nth_mem_of_infinite hinfinite k, Nat.count_nth_of_infinite hinfinite k⟩

theorem apply_lt (hn : ρ.Keeps n) (h : n < m) : ρ n < ρ m := Nat.count_strict_mono hn h

/-- The new number, if there is one. -/
def under? (ρ : Renumbering) (n : Nat) : Option Nat := if ρ.Keeps n then some (ρ n) else none

theorem under?_of_keeps (h : ρ.Keeps n) : ρ.under? n = some (ρ n) := if_pos h

theorem under?_of_not (h : ¬ ρ.Keeps n) : ρ.under? n = none := if_neg h

theorem under?_eq_some {k : Nat} : ρ.under? n = some k ↔ ρ.Keeps n ∧ ρ n = k := by
  rw [under?]
  split
  · next h => simp [h]
  · next h => simp [h]

theorem under?_eq_some_apply {u : Nat} (hn : ρ.Keeps n) : ρ.under? u = some (ρ n) ↔ u = n := by
  rw [under?_eq_some]
  constructor
  · rintro ⟨hu, same⟩
    exact eq_of_apply hu hn same
  · rintro rfl
    exact ⟨hn, rfl⟩

/-- What leaves a list leaves its image, if nothing else has that image. -/
theorem filterMap_filter_ne {α β : Type} [DecidableEq α] [DecidableEq β] {f : α → Option β} {a : α}
    {b : β} (only : ∀ u, f u = some b ↔ u = a) (l : List α) :
    (l.filter (· ≠ a)).filterMap f = (l.filterMap f).filter (· ≠ b) := by
  induction l with
  | nil => rfl
  | cons first rest ih =>
      by_cases hfirst : first = a
      · subst hfirst
        simpa [(only first).2 rfl] using ih
      · have hne := mt (only first).1 hfirst
        cases himage : f first with
        | none => simpa [hfirst, himage] using ih
        | some u =>
            have hu : u ≠ b := fun h => hne (himage.trans (congrArg some h))
            simpa [hfirst, himage, hu] using ih

/-- Under the new numbers the second table has what the first has under the old ones. -/
def Carries (ρ : Renumbering) (R : α → β → Prop) (t : Table Nat α) (t' : Table Nat β) : Prop :=
  ∀ n, ρ.Keeps n → Option.Rel R (t.get? n) (t'.get? (ρ n))

namespace Carries

variable {t : Table Nat α} {t' : Table Nat β} {v : α} {v' : β}

theorem empty : ρ.Carries R ∅ ∅ := fun _ _ => .none

theorem get? (h : ρ.Carries R t t') (hn : ρ.Keeps n) (hv : t.get? n = some v) :
    ∃ v', t'.get? (ρ n) = some v' ∧ R v v' := by
  have hrel := h n hn
  rw [hv] at hrel
  generalize t'.get? (ρ n) = found at hrel
  cases hrel with
  | some hR => exact ⟨_, rfl, hR⟩

/-- Whatever the second table has goes back to something in the first. -/
theorem of_get? (h : ρ.Carries R t t') {k : Nat} (hv : t'.get? k = some v') :
    ∃ n v, ρ.Keeps n ∧ t.get? n = some v ∧ R v v' := by
  obtain ⟨n, hn, rfl⟩ := ρ.exists_keeps k
  have hrel := h n hn
  rw [hv] at hrel
  generalize hfound : t.get? n = found at hrel
  cases hrel with
  | some hR => exact ⟨n, _, hn, hfound, hR⟩

theorem insert (h : ρ.Carries R t t') (hn : ρ.Keeps n) (hR : R v v') :
    ρ.Carries R (t.insert n v) (t'.insert (ρ n) v') := by
  intro m hm
  rw [Table.get?_insert, Table.get?_insert, if_congr (apply_eq_iff hm hn) rfl rfl]
  split
  · exact .some hR
  · exact h m hm

theorem erase (h : ρ.Carries R t t') (hn : ρ.Keeps n) :
    ρ.Carries R (t.erase n) (t'.erase (ρ n)) := by
  intro m hm
  rw [Table.get?_erase, Table.get?_erase, if_congr (apply_eq_iff hm hn) rfl rfl]
  split
  · exact .none
  · exact h m hm

/-- What the first table has under omitted numbers does not matter. -/
theorem congr {u : Table Nat α} (h : ρ.Carries R t t')
    (same : ∀ n, ρ.Keeps n → u.get? n = t.get? n) : ρ.Carries R u t' := by
  intro n hn
  rw [same n hn]
  exact h n hn

end Carries

end Renumbering

/-! ## Tables under other numbers -/

namespace Table

variable {α β : Type} {ρ : Renumbering}

/-- What a table has under numbers that are kept, under the new ones. -/
def rekey (ρ : Renumbering) (t : Table Nat α) : Table Nat α where
  entries := t.entries.filterMap (fun e => (ρ.under? e.1).map (·, e.2))
  sorted := by
    refine List.Pairwise.filterMap _ (fun a a' hlt b hb b' hb' => ?_) t.sorted
    obtain ⟨k, hk, rfl⟩ := Option.map_eq_some_iff.1 hb
    obtain ⟨k', hk', rfl⟩ := Option.map_eq_some_iff.1 hb'
    obtain ⟨hkeeps, rfl⟩ := Renumbering.under?_eq_some.1 hk
    obtain ⟨-, rfl⟩ := Renumbering.under?_eq_some.1 hk'
    exact Renumbering.apply_lt hkeeps hlt

theorem get?_rekey (t : Table Nat α) {n : Nat} (hn : ρ.Keeps n) :
    (t.rekey ρ).get? (ρ n) = t.get? n := by
  apply Option.ext
  intro v
  rw [get?_eq_some_iff, get?_eq_some_iff]
  constructor
  · intro mem
    obtain ⟨⟨k, w⟩, listed, image⟩ := List.mem_filterMap.1 mem
    obtain ⟨k', hk, eq⟩ := Option.map_eq_some_iff.1 image
    obtain ⟨hkeeps, rfl⟩ := Renumbering.under?_eq_some.1 hk
    obtain ⟨same, rfl⟩ := Prod.mk.inj eq
    rwa [← Renumbering.eq_of_apply hkeeps hn same]
  · intro listed
    exact List.mem_filterMap.2 ⟨(n, v), listed, by simp [Renumbering.under?_of_keeps hn]⟩

/-- Every number is the new one of a number that is kept. -/
theorem ext_rekey {a b : Table Nat α} (ρ : Renumbering)
    (same : ∀ n, ρ.Keeps n → a.get? (ρ n) = b.get? (ρ n)) : a = b := by
  ext k : 1
  obtain ⟨n, hn, rfl⟩ := ρ.exists_keeps k
  exact same n hn

theorem rekey_insert (t : Table Nat α) {n : Nat} (hn : ρ.Keeps n) (v : α) :
    (t.insert n v).rekey ρ = (t.rekey ρ).insert (ρ n) v := by
  refine ext_rekey ρ (fun m hm => ?_)
  rw [get?_rekey _ hm, get?_insert, get?_insert, get?_rekey _ hm,
    if_congr (Renumbering.apply_eq_iff hm hn) rfl rfl]

theorem rekey_erase (t : Table Nat α) {n : Nat} (hn : ρ.Keeps n) :
    (t.erase n).rekey ρ = (t.rekey ρ).erase (ρ n) := by
  refine ext_rekey ρ (fun m hm => ?_)
  rw [get?_rekey _ hm, get?_erase, get?_erase, get?_rekey _ hm,
    if_congr (Renumbering.apply_eq_iff hm hn) rfl rfl]

/-- What a table has under other numbers does not matter. -/
theorem rekey_congr {t u : Table Nat α} (same : ∀ n, ρ.Keeps n → u.get? n = t.get? n) :
    u.rekey ρ = t.rekey ρ := by
  refine ext_rekey ρ (fun n hn => ?_)
  rw [get?_rekey _ hn, get?_rekey _ hn, same n hn]

theorem toList_rekey {t : Table Nat α} (kept : ∀ n ∈ t, ρ.Keeps n) :
    (t.rekey ρ).toList = t.toList.map (fun e => (ρ e.1, e.2)) := by
  change t.entries.filterMap _ = t.entries.map _
  rw [← List.filterMap_eq_map]
  refine List.filterMap_congr (fun e he => ?_)
  have hkeeps : ρ.Keeps e.1 := kept e.1 (mem_iff.2 ⟨e.2, get?_eq_some_iff.2 he⟩)
  simp [Renumbering.under?_of_keeps hkeeps]

end Table

/-! ## The parts of an engine -/

def Ticket.number : Ticket → Nat
  | round id | copy id | swap id | prune id => id

def Ticket.renumber (f : Nat → Nat) : Ticket → Ticket
  | round id => round (f id)
  | copy id => copy (f id)
  | swap id => swap (f id)
  | prune id => prune (f id)

/-- The ticket under its new number, if that is kept. -/
def Ticket.under? (ρ : Renumbering) (t : Ticket) : Option Ticket :=
  if ρ.Keeps t.number then some (t.renumber ρ) else none

def LiveState.renumber (f : Nat → Nat) (live : LiveState) : LiveState :=
  { live with
    collectors := live.collectors.map (fun _ c => f c)
    levels := live.levels.map (fun _ collectors => collectors.map (fun _ c => f c)) }

def PrepareStage.renumber (f : Nat → Nat) : PrepareStage → PrepareStage
  | preparing domain collector rest => preparing domain (f collector) rest
  | stage => stage

def Preparation.renumber (f : Nat → Nat) (p : Preparation) : Preparation :=
  { p with
    stage := p.stage.renumber f
    known := p.known.map (fun _ c => f c)
    collectors := p.collectors.map (fun _ c => f c) }

@[simp] theorem Preparation.renumber_stage (f : Nat → Nat) (p : Preparation) :
    (p.renumber f).stage = p.stage.renumber f :=
  rfl

@[simp] theorem PrepareStage.waits_renumber (f : Nat → Nat) (stage : PrepareStage) :
    (stage.renumber f).waits = stage.waits := by
  cases stage <;> rfl

def RoundTask.renumber (f : Nat → Nat) (t : RoundTask) : RoundTask :=
  { t with collector := f t.collector }

@[simp] theorem RoundTask.result?_renumber (f : Nat → Nat) (t : RoundTask) :
    (t.renumber f).result? = t.result? :=
  rfl

def RoundStage.renumber (f : Nat → Nat) : RoundStage → RoundStage
  | queued => queued
  | collecting plan began tasks => collecting plan began (tasks.map (fun _ t => t.renumber f))

def EngineRound.renumber (f : Nat → Nat) (r : EngineRound) : EngineRound :=
  { r with stage := r.stage.renumber f }

@[simp] theorem EngineRound.isQueued_renumber (f : Nat → Nat) (r : EngineRound) :
    (r.renumber f).stage.isQueued = r.stage.isQueued := by
  rw [renumber]
  cases r.stage <;> rfl

/-- The same action under other numbers of preparations and rounds. -/
def EngineAction.renumber (f : Nat → Nat) : EngineAction → EngineAction
  | beginPrepare plan cancelled => beginPrepare plan cancelled
  | cancel id => cancel (f id)
  | pinged id result => pinged (f id) result
  | retry id => retry (f id)
  | noticeCancel id => noticeCancel (f id)
  | copyLive id => copyLive (f id)
  | visit id creation noticed => visit (f id) creation noticed
  | collectorPrepared id result => collectorPrepared (f id) result
  | conclude id => conclude (f id)
  | swap id commits => swap (f id) commits
  | cleanUp id finished => cleanUp (f id) finished
  | prune id => prune (f id)
  | dropPreparation id => dropPreparation (f id)
  | beginCollect level => beginCollect level
  | enter id now => enter (f id) now
  | startTask id domain => startTask (f id) domain
  | finishTask id domain result => finishTask (f id) domain result
  | loseTask id domain => loseTask (f id) domain
  | close id now => close (f id) now
  | dropRound id => dropRound (f id)

/-- The same event under other numbers of preparations and rounds, and of collectors. -/
def EngineEvent.renumber (f g : Nat → Nat) : EngineEvent → EngineEvent
  | creating domain => creating domain
  | preparing domain plan collector => preparing domain plan (g collector)
  | before id => before (f id)
  | committing domain collector => committing domain (g collector)
  | after id => after (f id)
  | cleaning cleanup => cleaning cleanup
  | prepared id outcome => prepared (f id) outcome
  | collected id batch => collected (f id) batch

/-! ## Tickets -/

section Tickets

variable {ρ : Renumbering} {t u : Ticket} {queue : List Ticket}

@[simp] theorem Ticket.isSwap_renumber (f : Nat → Nat) (t : Ticket) :
    (t.renumber f).isSwap = t.isSwap := by
  cases t <;> rfl

theorem Ticket.under?_of_keeps (ht : ρ.Keeps t.number) : t.under? ρ = some (t.renumber ρ) :=
  if_pos ht

theorem Ticket.eq_of_renumber (ht : ρ.Keeps t.number) (hu : ρ.Keeps u.number)
    (h : t.renumber ρ = u.renumber ρ) : t = u := by
  cases t <;> cases u <;> simp only [renumber, reduceCtorEq, round.injEq, copy.injEq, swap.injEq,
    prune.injEq] at h ⊢ <;> exact Renumbering.eq_of_apply ht hu h

/-- Only the ticket itself has its place in the other queue. -/
theorem Ticket.under?_eq_iff (ht : ρ.Keeps t.number) :
    u.under? ρ = some (t.renumber ρ) ↔ u = t := by
  constructor
  · intro h
    unfold under? at h
    split at h
    · next hu => exact eq_of_renumber hu ht (Option.some.inj h)
    · contradiction
  · rintro rfl
    exact under?_of_keeps ht

theorem filterMap_dequeue (ht : ρ.Keeps t.number) (queue : List Ticket) :
    (queue.filter (· ≠ t)).filterMap (·.under? ρ) =
      (queue.filterMap (·.under? ρ)).filter (· ≠ t.renumber ρ) :=
  Renumbering.filterMap_filter_ne (fun _ => Ticket.under?_eq_iff ht) queue

theorem filterMap_filter_omitted {n : Nat} (hn : ¬ ρ.Keeps n) (queue : List Ticket) :
    (queue.filter (·.number ≠ n)).filterMap (·.under? ρ) = queue.filterMap (·.under? ρ) := by
  rw [List.filterMap_filter]
  refine List.filterMap_congr fun u _ => ?_
  by_cases hu : u.number = n
  · simp [hu, Ticket.under?, hn]
  · simp [hu]

theorem mem_under (ht : ρ.Keeps t.number) (h : t ∈ queue) :
    t.renumber ρ ∈ queue.filterMap (·.under? ρ) :=
  List.mem_filterMap.2 ⟨t, h, Ticket.under?_of_keeps ht⟩

/-- Nobody new is ahead in the other queue. -/
theorem takeWhile_under (ht : ρ.Keeps t.number) (queue : List Ticket) :
    (queue.filterMap (·.under? ρ)).takeWhile (· ≠ t.renumber ρ) =
      (queue.takeWhile (· ≠ t)).filterMap (·.under? ρ) := by
  induction queue with
  | nil => rfl
  | cons first rest ih =>
      by_cases hfirst : first = t
      · subst hfirst
        simp [Ticket.under?_of_keeps ht]
      · have hne := mt (Ticket.under?_eq_iff (u := first) ht).1 hfirst
        cases hunder : first.under? ρ with
        | none => simpa [hfirst, hunder] using ih
        | some u =>
            have hu : u ≠ t.renumber ρ := fun h => hne (hunder.trans (congrArg some h))
            simpa [hfirst, hunder, hu] using ih

end Tickets

/-! ## Live states and rounds -/

theorem LiveState.renumber_ofPlan (f : Nat → Nat) (plan : Plan) (collectors : Table String Nat)
    (cleanups : List Cleanup) :
    (LiveState.ofPlan plan collectors cleanups).renumber f =
      .ofPlan plan (collectors.map (fun _ c => f c)) cleanups := by
  have hlevels : ((LiveState.ofPlan plan collectors cleanups).renumber f).levels =
      (LiveState.ofPlan plan (collectors.map (fun _ c => f c)) cleanups).levels := by
    ext name : 1
    simp only [renumber, Table.get?_map, get?_levels_ofPlan, Option.map_map]
    refine congrArg (Option.map · _) (funext fun level => ?_)
    ext d : 1
    simp only [Function.comp_apply, Table.get?_map, Table.get?_filterMap, Table.getElem?_eq_get?]
    cases level.collect.get? d <;> simp
  rw [ofPlan, ofPlan] at hlevels ⊢
  simp only [renumber] at hlevels ⊢
  rw [hlevels]

theorem LiveState.getD_levels_renumber (f : Nat → Nat) (live : LiveState) (level : String) :
    ((live.renumber f).levels.get? level).getD ∅ =
      ((live.levels.get? level).getD ∅).map (fun _ c => f c) := by
  rw [renumber, Table.get?_map]
  cases live.levels.get? level <;> rfl

/-- A level of the live state of a plan has no collectors but those of the plan. -/
theorem LiveState.get?_of_level_ofPlan {plan : Plan} {collectors : Table String Nat}
    {cleanups : List Cleanup} {level d : String} {c : Nat}
    (h : (((ofPlan plan collectors cleanups).levels.get? level).getD ∅).get? d = some c) :
    collectors.get? d = some c := by
  rw [get?_levels_ofPlan] at h
  cases hlevel : plan.levelNamed? level with
  | none => simp [hlevel] at h
  | some l =>
      simp only [hlevel, Option.map_some, Option.getD_some, Table.get?_filterMap,
        Table.getElem?_eq_get?] at h
      obtain ⟨_, -, hc⟩ := Option.bind_eq_some_iff.1 h
      exact hc

/-- The tasks that a round begins with. -/
theorem RoundTask.map_renumber (f : Nat → Nat) (collectors : Table String Nat) :
    (collectors.map (fun _ c => f c)).map (fun _ collector => ({ collector } : RoundTask)) =
      (collectors.map (fun _ collector => ({ collector } : RoundTask))).map
        (fun _ t => t.renumber f) := by
  rw [Table.map_map, Table.map_map]
  rfl

theorem Engine.map_commitEvents (f g : Nat → Nat) (collectors : Table String Nat) :
    (commitEvents collectors).map (·.renumber f g) =
      commitEvents (collectors.map (fun _ c => g c)) := by
  simp only [commitEvents, Table.toList, Table.map, List.map_map]
  rfl

end Cadence
