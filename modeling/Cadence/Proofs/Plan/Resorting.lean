import Cadence.Plan.Edit
import Cadence.Proofs.Plan.Defects
import Cadence.Proofs.Run

/-!
# Inheritance is applied once

A plan that has been sorted is still in order, because inheritance leaves the
frequencies alone and brings no metric that no level has named.  From then on it
can be edited in whatever way and sorted as often as one likes: an edit does not
touch the mark that says that inheritance has been applied, so sorting never
writes to the plan again.
-/

namespace Cadence

namespace Domain

variable {finer own : Option Domain}

theorem wellNamed_join (hfiner : ∀ d, finer = some d → d.WellNamed)
    (hown : ∀ d, own = some d → d.WellNamed) : ∀ d, join finer own = some d → d.WellNamed := by
  intro d hd
  cases finer with
  | none => exact hown d hd
  | some f =>
      cases own with
      | none => exact hfiner d hd
      | some o =>
          obtain rfl := Option.some.inj hd
          intro metric hmetric
          rcases List.mem_append.1 hmetric with hmetric | hmetric
          · exact hown o rfl metric hmetric
          · exact hfiner f rfl metric hmetric

end Domain

namespace Plan

def WellNamed (levels : Table String Level) : Prop :=
  ∀ key domain d, request? levels key domain = some d → d.WellNamed

variable {levels : Table String Level} {finer coarser : String} {order : List SortedLevel}
  {plan sorted : Plan}

theorem wellNamed_iff :
    WellNamed levels ↔ ∀ level ∈ levels.values, ∀ d ∈ level.collect.values, d.WellNamed := by
  constructor
  · intro h level hlevel d hd
    obtain ⟨key, hkey⟩ := Table.mem_values.1 hlevel
    obtain ⟨domain, hdomain⟩ := Table.mem_values.1 hd
    exact h key domain d (by simp [request?, hkey, hdomain])
  · intro h key domain d hrequest
    obtain ⟨level, hlevel, hd⟩ := Option.bind_eq_some_iff.1 hrequest
    exact h level (Table.mem_values.2 ⟨key, hlevel⟩) d (Table.mem_values.2 ⟨domain, hd⟩)

theorem WellNamed.foldLevel (h : WellNamed levels) :
    WellNamed (foldLevel levels finer coarser) := by
  intro key domain d hd
  by_cases hkey : key = coarser
  · have hthere : coarser ∈ levels := by
      obtain ⟨level, hlevel, -⟩ := Option.bind_eq_some_iff.1 hd
      apply mem_foldLevel.1
      exact Table.mem_iff.2 ⟨level, hkey ▸ hlevel⟩
    rw [hkey, request?_foldLevel domain hthere] at hd
    exact Domain.wellNamed_join (h finer domain) (h coarser domain) d hd
  · rw [request?, get?_foldLevel_of_ne hkey] at hd
    exact h key domain d hd

/-- Inheritance brings no metric that no level has named. -/
theorem WellNamed.inherit (h : WellNamed levels) (order : List SortedLevel) :
    WellNamed (inherit levels order) := by
  induction order generalizing levels with
  | nil => exact h
  | cons level rest ih =>
      apply ih
      exact List.foldlRecOn rest _ h fun _ hlevels _ _ => hlevels.foldLevel

theorem wholeSecs?_inherit (levels : Table String Level) (order : List SortedLevel) :
    (inherit levels order).values.map (·.wholeSecs?) = levels.values.map (·.wholeSecs?) :=
  map_values_inherit fun heading => ({ name := heading.1, freq := heading.2 } : Level).wholeSecs?

theorem inOrder_inherit (h : InOrder levels.values) (order : List SortedLevel) :
    InOrder (inherit levels order).values where
  frequencies level hlevel := by
    have hsecs := List.mem_map_of_mem (f := (·.wholeSecs?)) hlevel
    rw [wholeSecs?_inherit] at hsecs
    obtain ⟨own, hown, hsame⟩ := List.mem_map.1 hsecs
    rw [← hsame]
    exact h.frequencies own hown
  distinct := by
    rw [wholeSecs?_inherit]
    exact h.distinct
  metrics := wellNamed_iff.1 ((wellNamed_iff.2 h.metrics).inherit order)

theorem validate_inheriting (valid : plan.validate = .ok ()) : plan.inheriting.validate = .ok () := by
  unfold inheriting
  split
  · exact valid
  · rw [validate_eq_ok_iff_inOrder] at valid ⊢
    exact inOrder_inherit valid _

theorem inherited_inheriting (plan : Plan) : plan.inheriting.inherited = true := by
  unfold inheriting
  split
  · assumption
  · rfl

theorem inheriting_of_inherited (h : plan.inherited = true) : plan.inheriting = plan := if_pos h

theorem perm_order_wholeSecs (valid : plan.validate = .ok ()) :
    (plan.order.map (fun l => (l.name, some l.freq))).Perm
      (plan.levels.values.map (fun level => (level.name, level.wholeSecs?))) := by
  have hperm := (perm_order plan).map (fun l => (l.name, some l.freq))
  rw [List.map_map] at hperm
  apply hperm.trans
  apply List.Perm.of_eq
  apply List.map_congr_left
  intro level hlevel
  have hpos := ((validate_eq_ok_iff.1 valid).1 level hlevel).1
  have hsecs := (freqSecs_eq_ok_iff.1 (freqSecs_iff_seconds.2 ⟨rfl, hpos⟩)).1
  rw [hsecs]
  rfl

/-! ### Editing -/

/-- A change to the fields of a plan that are open to everyone. -/
inductive Edit where
  | setFreq (level freq : String)
  | pushMetric (level domain metric : String)
  | removeLevel (level : String)
  | insertLevel (name : String) (level : Level)
  | assign (name source : String) (levels : Table String Level)

/-- None if there is no level to change. -/
def Edit.perform? (plan : Plan) : Edit → Option Plan
  | setFreq level freq => plan.setFreq? level freq
  | pushMetric level domain metric => plan.pushMetric? level domain metric
  | removeLevel level => some (plan.removeLevel level)
  | insertLevel name level => some (plan.insertLevel name level)
  | assign name source levels => some { plan with name, source, levels }

inductive Handling where
  | edit (e : Edit)
  | sort

/-- A plan is edited, or sorted where it stands. -/
def handle (plan : Plan) : Handling → Option (Plan × List (Except SortFailure (List SortedLevel)))
  | .edit e => (e.perform? plan).map (·, [])
  | .sort =>
      match sortInPlace.run plan with
      | .ok order after => some (after, [.ok order])
      | .error e after => some (after, [.error e])

variable {edited : Plan} {outcomes : List (Except SortFailure (List SortedLevel))}

theorem Edit.inherited_of_perform? {e : Edit} (h : e.perform? plan = some edited) :
    edited.inherited = plan.inherited := by
  cases e with
  | setFreq level freq =>
      obtain ⟨own, -, rfl⟩ := Option.map_eq_some_iff.1 h
      rfl
  | pushMetric level domain metric =>
      obtain ⟨own, -, rfl⟩ := Option.map_eq_some_iff.1 h
      rfl
  | removeLevel level =>
      obtain rfl := Option.some.inj h
      rfl
  | insertLevel name level =>
      obtain rfl := Option.some.inj h
      rfl
  | assign name source levels =>
      obtain rfl := Option.some.inj h
      rfl

/-- Sorting a plan that has been sorted reads it only. -/
theorem handle_sort_of_inherited (h : plan.inherited = true) :
    handle plan .sort =
      some (plan, [(plan.validate.map fun _ => plan.order).mapError .refused]) := by
  rw [handle, run_sortInPlace_of_named (.inl h), sort_eq, inheriting_of_inherited h]
  cases plan.validate <;> rfl

theorem inherited_of_handle {handling : Handling} (h : handle plan handling = some (edited, outcomes))
    (hinherited : plan.inherited = true) : edited.inherited = true := by
  cases handling with
  | edit e =>
      obtain ⟨after, hafter, heq⟩ := Option.map_eq_some_iff.1 h
      obtain ⟨rfl, -⟩ := Prod.mk.inj heq
      rw [e.inherited_of_perform? hafter, hinherited]
  | sort =>
      rw [handle_sort_of_inherited hinherited] at h
      obtain ⟨rfl, -⟩ := Prod.mk.inj (Option.some.inj h)
      exact hinherited

/-- A plan that has been sorted is sorted again to the same end, and remains unchanged by sorting
however it is edited: it is put in order by the frequencies that it has by then, or refused for
what is wrong with it by then. -/
theorem inherits_at_most_once {last : Plan}
    {steps : List (Step Plan Handling (Except SortFailure (List SortedLevel)))}
    (accepted : sortInPlace.run plan = .ok order sorted) (run : Run handle sorted steps last) :
    sorted.validate = .ok () ∧
      sorted.sort = .ok (order, sorted) ∧ sortInPlace.run sorted = .ok order sorted ∧
      ∀ x ∈ steps, x.action = .sort →
        x.after = x.before ∧
        (∀ e, x.before.validate = .error e → x.events = [.error (.refused e)]) ∧
        (x.before.validate = .ok () → ∃ levels, x.events = [.ok levels] ∧
          levels.Pairwise (fun a b => a.freq < b.freq) ∧
          (levels.map (fun l => (l.name, some l.freq))).Perm
            (x.before.levels.values.map (fun level => (level.name, level.wholeSecs?)))) := by
  obtain ⟨valid, rfl, rfl⟩ := sort_eq_ok_iff.1 (sort_of_sortInPlace accepted)
  have hinherited := inherited_inheriting plan
  have hsort : plan.inheriting.sort = .ok (plan.order, plan.inheriting) :=
    sort_eq_ok_iff.2 ⟨validate_inheriting valid, (order_inheriting plan).symm,
      (inheriting_of_inherited hinherited).symm⟩
  refine ⟨validate_inheriting valid, hsort, ?_, fun x hx hsorts => ?_⟩
  · rw [run_sortInPlace_of_named (.inl hinherited), hsort]
  · obtain ⟨hbefore, taken⟩ := run.invariant_before hinherited inherited_of_handle hx
    rw [hsorts, handle_sort_of_inherited hbefore] at taken
    obtain ⟨hafter, hevents⟩ := Prod.mk.inj (Option.some.inj taken)
    refine ⟨hafter.symm, fun e he => ?_, fun hvalid => ?_⟩
    · rw [← hevents, he]
      rfl
    · refine ⟨x.before.order, ?_, pairwise_order hvalid, ?_⟩
      · rw [← hevents, hvalid]
        rfl
      · exact perm_order_wholeSecs hvalid

/-- Two levels that ask the same domain for different metrics. -/
def twoTiers : Plan :=
  .ofLevels "tiers" "inline" (.ofList [
    ("std", { freq := "5s", collect := .ofList [("cpu", { metrics := ["sys"] })] }),
    ("kpi", { freq := "1s", collect := .ofList [("cpu", { metrics := ["user"] })] })])

/-- The coarser level gets another metric, then the frequency of the finer one, and then a
frequency of its own again. -/
def twoTiersHandled : List Handling :=
  [.edit (.pushMetric "std" "cpu" "idle"), .edit (.setFreq "std" "1s"), .sort,
    .edit (.setFreq "std" "10s"), .sort]

theorem inherits_at_most_once_twoTiers :
    ∃ order sorted, sortInPlace.run twoTiers = .ok order sorted ∧ sorted ≠ twoTiers ∧
      sortInPlace.run sorted = .ok order sorted ∧
      ((Run.follow handle sorted twoTiersHandled).1.map (·.events)).flatten =
        [.error (.refused (.duplicateFreq "tiers" "kpi" "std" 1)), .ok [⟨"kpi", 1⟩, ⟨"std", 10⟩]] ∧
      ∀ x ∈ (Run.follow handle sorted twoTiersHandled).1, x.action = .sort → x.after = x.before := by
  have accepted : sortInPlace.run twoTiers = .ok [⟨"kpi", 1⟩, ⟨"std", 5⟩] twoTiers.inheriting := by
    have hsort : twoTiers.sort = .ok ([⟨"kpi", 1⟩, ⟨"std", 5⟩], twoTiers.inheriting) := by
      decide +kernel
    rw [run_sortInPlace_of_named (.inr (by decide +kernel)), hsort]
  obtain ⟨-, -, hagain, hsorts⟩ := inherits_at_most_once accepted
    (Run.of_follow handle twoTiers.inheriting twoTiersHandled)
  refine ⟨_, _, accepted, by decide +kernel, hagain, by decide +kernel, fun x hx hsort => ?_⟩
  exact (hsorts x hx hsort).1

end Plan

end Cadence
