import Cadence.Plan.Order
import Cadence.Proofs.Plan.Inheritance

/-!
# What the due level collects

At a tick the scheduler picks one level only, the coarsest of those that are
due.  Thanks to inheritance nothing is lost: whatever the other due levels ask
for, that level asks for too.
-/

namespace Cadence

namespace Domain

def Covered (entry other : Option Domain) : Prop :=
  ∀ x, entry = some x → ∃ y, other = some y ∧ x.metrics ⊆ y.metrics

theorem Covered.refl (entry : Option Domain) : Covered entry entry :=
  fun x hx => ⟨x, hx, List.Subset.refl _⟩

theorem Covered.trans {a b c : Option Domain} (hab : Covered a b) (hbc : Covered b c) :
    Covered a c := by
  intro x hx
  obtain ⟨y, hy, hxy⟩ := hab x hx
  obtain ⟨z, hz, hyz⟩ := hbc y hy
  exact ⟨z, hz, List.Subset.trans hxy hyz⟩

theorem covered_join_left (finer own : Option Domain) : Covered finer (join finer own) := by
  rintro x rfl
  cases own with
  | none => exact ⟨x, rfl, List.Subset.refl _⟩
  | some own => exact ⟨_, rfl, List.subset_append_right _ _⟩

theorem covered_join_right (finer own : Option Domain) : Covered own (join finer own) := by
  rintro x rfl
  cases finer with
  | none => exact ⟨x, rfl, List.Subset.refl _⟩
  | some finer => exact ⟨_, rfl, List.subset_append_left _ _⟩

theorem covered_absorb (finer : List (Option Domain)) (own : Option Domain) :
    Covered own (absorb finer own) ∧ ∀ entry ∈ finer, Covered entry (absorb finer own) := by
  induction finer generalizing own with
  | nil => exact ⟨.refl own, by simp⟩
  | cons first rest ih =>
      obtain ⟨hown, hall⟩ := ih (join first own)
      refine ⟨(covered_join_right first own).trans hown, ?_⟩
      rw [List.forall_mem_cons]
      exact ⟨(covered_join_left first own).trans hown, hall⟩

/-- Every entry of the row is covered by what becomes of it and of those after it. -/
theorem covered_cascade {before owns : List (Option Domain)} {j : Nat} {after : Option Domain}
    (hafter : (cascade before owns)[j]? = some after) :
    (∀ entry ∈ before, Covered entry after) ∧
      ∀ i ≤ j, ∀ own, owns[i]? = some own → Covered own after := by
  induction owns generalizing before j with
  | nil => simp [cascade] at hafter
  | cons first rest ih =>
      rw [cascade] at hafter
      obtain ⟨hfirst, hbefore⟩ := covered_absorb before first
      cases j with
      | zero =>
          obtain rfl : absorb before first = after := by simpa using hafter
          refine ⟨hbefore, fun i hi own hown => ?_⟩
          obtain rfl : i = 0 := by omega
          obtain rfl : first = own := by simpa using hown
          exact hfirst
      | succ j =>
          obtain ⟨hall, hrest⟩ := ih (by simpa using hafter)
          refine ⟨fun entry hentry => hall entry (List.mem_append_left _ hentry), ?_⟩
          intro i hi own hown
          cases i with
          | zero =>
              obtain rfl : first = own := by simpa using hown
              exact hfirst.trans (hall _ (by simp))
          | succ i => exact hrest i (by omega) own (by simpa using hown)

end Domain

namespace Plan

def period? (plan : Plan) (key : String) : Option Nat :=
  (plan.levels.get? key).bind (fun level => (freqSecs plan.name level).toOption)

theorem mem_order_iff_period? {plan : Plan} (named : plan.NamedByKey)
    (valid : plan.validate = .ok ()) {l : SortedLevel} :
    l ∈ plan.order ↔ plan.period? l.name = some l.freq := by
  rw [mem_order named valid, period?, Option.bind_eq_some_iff]
  refine exists_congr fun level => and_congr_right fun _ => ?_
  cases freqSecs plan.name level <;> simp [Except.toOption]

/-- After sorting, a level asks for all that it and the finer ones asked for before. -/
theorem covered_request? {plan sorted : Plan} (named : plan.NamedByKey)
    (fresh : plan.inherited = false) (h : plan.sort = .ok (plan.order, sorted))
    (valid : plan.validate = .ok ()) {finer coarser : SortedLevel} (hfiner : finer ∈ plan.order)
    (hcoarser : coarser ∈ plan.order) (hle : finer.freq ≤ coarser.freq) (domain : String) :
    Domain.Covered (request? plan.levels finer.name domain)
      (request? sorted.levels coarser.name domain) := by
  obtain ⟨i, hi, higet⟩ := List.getElem_of_mem hfiner
  obtain ⟨j, hj, hjget⟩ := List.getElem_of_mem hcoarser
  have hij : i ≤ j := by
    refine Nat.le_of_not_lt fun hgt => ?_
    have hlt := List.pairwise_iff_getElem.1 (pairwise_order valid) j i hj hi hgt
    rw [higet, hjget] at hlt
    exact Nat.not_lt_of_le hle hlt
  have hcascade := congrArg (·[j]?) (map_request?_sort named fresh h domain)
  have hi? : plan.order[i]? = some finer := List.getElem?_eq_some_iff.2 ⟨hi, higet⟩
  have hj? : plan.order[j]? = some coarser := List.getElem?_eq_some_iff.2 ⟨hj, hjget⟩
  simp only [List.getElem?_map, hj?, Option.map_some] at hcascade
  exact (Domain.covered_cascade hcascade.symm).2 i hij _ (by simp [hi?])

end Plan

section Due

variable {levels : List SortedLevel} {tick : Nat}

theorem dueLevel?_eq_none_iff (positive : ∀ l ∈ levels, 0 < l.freq) :
    dueLevel? levels tick = none ↔ ∀ l ∈ levels, ¬ l.freq ∣ tick := by
  simp only [dueLevel?, List.find?_eq_none, List.mem_reverse, Bool.and_eq_true, decide_eq_true_eq,
    ← Nat.dvd_iff_mod_eq_zero]
  exact forall₂_congr fun l hl => by simp [positive l hl]

theorem dueLevel?_eq_some (sorted : levels.Pairwise (fun a b => a.freq < b.freq))
    (positive : ∀ l ∈ levels, 0 < l.freq) {due : SortedLevel}
    (h : dueLevel? levels tick = some due) :
    due ∈ levels ∧ due.freq ∣ tick ∧
      ∀ l ∈ levels, l.freq ∣ tick → l = due ∨ l.freq < due.freq := by
  obtain ⟨hdue, coarser, finer, hsplit, hcoarser⟩ := List.find?_eq_some_iff_append.1 h
  have hmem : ∀ l, l ∈ levels ↔ l ∈ coarser ++ due :: finer := fun l => by
    rw [← hsplit, List.mem_reverse]
  have hdescending : (coarser ++ due :: finer).Pairwise (fun a b => b.freq < a.freq) :=
    hsplit ▸ List.pairwise_reverse.2 sorted
  have hfiner := (List.pairwise_cons.1 (List.pairwise_append.1 hdescending).2.1).1
  refine ⟨(hmem due).2 (by simp), ?_, fun l hl hdvd => ?_⟩
  · simp only [Bool.and_eq_true, decide_eq_true_eq] at hdue
    exact Nat.dvd_of_mod_eq_zero hdue.2
  · rcases List.mem_append.1 ((hmem l).1 hl) with hl' | hl'
    · have := hcoarser l hl'
      simp [positive l hl, Nat.mod_eq_zero_of_dvd hdvd] at this
    · rcases List.mem_cons.1 hl' with rfl | hl'
      · exact .inl rfl
      · exact .inr (hfiner l hl')

end Due

/-- No request is lost at a tick: the level that is picked is the coarsest of those that are due,
and it asks for all that any of them asked for before sorting. -/
theorem dueLevel?_covers {plan sorted : Plan} {levels : List SortedLevel} (named : plan.NamedByKey)
    (fresh : plan.inherited = false) (h : plan.sort = .ok (levels, sorted)) (tick : Nat) :
    (dueLevel? levels tick = none ↔
      ∀ key secs, plan.period? key = some secs → ¬ secs ∣ tick) ∧
    ∀ due, dueLevel? levels tick = some due →
      plan.period? due.name = some due.freq ∧ due.freq ∣ tick ∧
      ∀ key secs, plan.period? key = some secs → secs ∣ tick →
        (key ≠ due.name → secs < due.freq) ∧
        ∀ domain, Domain.Covered (Plan.request? plan.levels key domain)
          (Plan.request? sorted.levels due.name domain) := by
  obtain ⟨valid, rfl, -⟩ := Plan.sort_eq_ok_iff.1 h
  have hascending := Plan.pairwise_order valid
  have hmem : ∀ {l : SortedLevel}, l ∈ plan.order ↔ plan.period? l.name = some l.freq :=
    Plan.mem_order_iff_period? named valid
  have hpositive : ∀ l ∈ plan.order, 0 < l.freq := by
    intro l hl
    obtain ⟨level, -, hfreq⟩ := (Plan.mem_order named valid).1 hl
    exact Plan.freqSecs_pos hfreq
  constructor
  · rw [dueLevel?_eq_none_iff hpositive]
    constructor
    · exact fun hnone key secs hperiod => hnone ⟨key, secs⟩ (hmem.2 hperiod)
    · exact fun hnone l hl => hnone l.name l.freq (hmem.1 hl)
  · intro due hdue
    obtain ⟨hin, hdvd, hcoarsest⟩ := dueLevel?_eq_some hascending hpositive hdue
    refine ⟨hmem.1 hin, hdvd, fun key secs hperiod hkey => ?_⟩
    have hlevel : (⟨key, secs⟩ : SortedLevel) ∈ plan.order := hmem.2 hperiod
    have hfiner := hcoarsest _ hlevel hkey
    constructor
    · rintro hne
      rcases hfiner with rfl | hlt
      · exact absurd rfl hne
      · exact hlt
    · have hle : secs ≤ due.freq := by
        rcases hfiner with rfl | hlt
        · exact Nat.le_refl _
        · exact Nat.le_of_lt hlt
      exact Plan.covered_request? named fresh h valid hlevel hin hle

/-- Two levels that are due together at every twelfth tick, though neither divides the other. -/
def tiers : Plan :=
  .ofLevels "tiers" "inline" (.ofList [
    ("fast", { freq := "4s", collect := .ofList [("cpu", { metrics := ["usage"] })] }),
    ("slow", { freq := "6s", collect := .ofList [("memory", { metrics := ["used"] })] })])

theorem dueLevel?_covers_nonMultiples :
    ∃ levels sorted, tiers.sort = .ok (levels, sorted) ∧
      dueLevel? levels 12 = some ⟨"slow", 6⟩ ∧
      ∃ domain, Plan.request? sorted.levels "slow" "cpu" = some domain ∧ "usage" ∈ domain.metrics := by
  have hsort : tiers.sort = .ok (tiers.order, tiers.inheriting) :=
    Plan.sort_eq_ok_iff.2 ⟨Plan.validate_eq_ok_iff.2 (by decide +kernel), rfl, rfl⟩
  have hdue : dueLevel? tiers.order 12 = some ⟨"slow", 6⟩ := by decide +kernel
  obtain ⟨-, hcovers⟩ := dueLevel?_covers (by decide +kernel) rfl hsort 12
  obtain ⟨-, -, hall⟩ := hcovers _ hdue
  obtain ⟨-, hentries⟩ := hall "fast" 4 (by decide +kernel) (by decide)
  obtain ⟨domain, hdomain, hmetrics⟩ := hentries "cpu" { name := "cpu", metrics := ["usage"] }
    (by decide +kernel)
  exact ⟨_, _, hsort, hdue, domain, hdomain, hmetrics (by simp)⟩

end Cadence
