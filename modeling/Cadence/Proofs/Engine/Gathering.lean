import Mathlib.Data.List.Nodup
import Cadence.Engine.Collecting
import Cadence.Table.Lemmas

/-!
# What comes in of a round

The tasks of a round are joined one after the other, and then whatever domain is
missing is filled in.  Each domain ends up with the entry that its own task gives
it, so neither the order of the tasks nor the results of the others matter.
-/

namespace Cadence

namespace CollectResult

/-- The values that a result brings in. -/
def values? : CollectResult → Option (List MetricValue)
  | values vs => some vs
  | _ => none

/-- The error that a result is for its domain. -/
def error? : CollectResult → Option String
  | values _ => none
  | failed chain => some chain.joined
  | panicked message trace => some (panicText message trace)
  | died => some "collector task failed"

/-- What comes in with a result before anything is filled in. -/
def entry : CollectResult → Option (List MetricValue) × Option String
  | died => (none, none)
  | result => (result.values?, result.error?)

theorem isSome_values_or_error (result : CollectResult) :
    result.values?.isSome = true ∨ result.error?.isSome = true := by
  cases result <;> simp [values?, error?]

end CollectResult

namespace Gathered

/-- What has come in of a domain. -/
def entry (g : Gathered) (domain : String) : Option (List MetricValue) × Option String :=
  (g.values.get? domain, g.errors.get? domain)

/-- What stands for a domain once the missing ones are filled in. -/
def filled : Option (List MetricValue) × Option String → Option (List MetricValue) × Option String
  | (none, none) => (none, some "collector task failed")
  | entry => entry

theorem eq_of_entry {g g' : Gathered} (same : ∀ domain, g.entry domain = g'.entry domain) :
    g = g' := by
  obtain ⟨values, errors⟩ := g
  obtain ⟨values', errors'⟩ := g'
  have hvalues : values = values' := by
    ext d : 1
    exact congrArg Prod.fst (same d)
  have herrors : errors = errors' := by
    ext d : 1
    exact congrArg Prod.snd (same d)
  rw [hvalues, herrors]

theorem filled_entry (result : CollectResult) :
    filled result.entry = (result.values?, result.error?) := by
  cases result <;> rfl

theorem filled_filled (entry : Option (List MetricValue) × Option String) :
    filled (filled entry) = filled entry := by
  obtain ⟨values, errors⟩ := entry
  cases values <;> cases errors <;> rfl

/-! ## Joining -/

section Joining

variable {g : Gathered} {domain d : String} {result : CollectResult}
  {joined joined' : List (String × CollectResult)}

theorem entry_join_of_ne (hne : d ≠ domain) : (g.join (domain, result)).entry d = g.entry d := by
  cases result <;> simp [join, entry, Table.get?_insert, hne]

theorem entry_join_self (fresh : g.entry d = (none, none)) :
    (g.join (d, result)).entry d = result.entry := by
  obtain ⟨hvalues, herrors⟩ := Prod.mk.inj fresh
  cases result <;>
    simp [join, entry, CollectResult.entry, CollectResult.values?, CollectResult.error?, hvalues,
      herrors]

theorem entry_foldl_join_of_not_mem (hother : d ∉ joined.map Prod.fst) :
    (joined.foldl join g).entry d = g.entry d := by
  induction joined generalizing g with
  | nil => rfl
  | cons first rest ih =>
      rw [List.map_cons, List.mem_cons, not_or] at hother
      rw [List.foldl_cons, ih hother.2]
      exact entry_join_of_ne hother.1

theorem entry_foldl_join_of_mem (nodup : (joined.map Prod.fst).Nodup) (hmem : (d, result) ∈ joined)
    (fresh : g.entry d = (none, none)) : (joined.foldl join g).entry d = result.entry := by
  obtain ⟨pre, post, rfl⟩ := List.append_of_mem hmem
  rw [List.map_append, List.map_cons, List.nodup_middle, List.nodup_cons, List.mem_append,
    not_or] at nodup
  rw [List.foldl_append, List.foldl_cons, entry_foldl_join_of_not_mem nodup.1.2]
  exact entry_join_self ((entry_foldl_join_of_not_mem nodup.1.1).trans fresh)

end Joining

/-! ## Filling in -/

section Filling

variable {domains : List String} {joined joined' : List (String × CollectResult)} {d : String}
  {result : CollectResult}

theorem entry_fillIn (g : Gathered) (domain d : String) :
    (g.fillIn domain).entry d = if d = domain then filled (g.entry d) else g.entry d := by
  by_cases hd : d = domain
  · subst hd
    cases hvalues : g.values.get? d <;> cases herrors : g.errors.get? d <;>
      simp [fillIn, entry, filled, Table.contains, hvalues, herrors]
  · rw [if_neg hd, fillIn]
    split
    · rfl
    · simp [entry, Table.get?_insert, hd]

theorem entry_foldl_fillIn (g : Gathered) (domains : List String) (d : String) :
    (domains.foldl fillIn g).entry d = if d ∈ domains then filled (g.entry d) else g.entry d := by
  induction domains generalizing g with
  | nil => rfl
  | cons first rest ih =>
      rw [List.foldl_cons, ih, entry_fillIn]
      by_cases hfirst : d = first
      · subst hfirst
        by_cases hrest : d ∈ rest <;> simp [hrest, filled_filled]
      · simp [hfirst]

/-- A domain of the round whose task has been joined has the entry of its own result. -/
theorem entry_collect_of_mem (nodup : (joined.map Prod.fst).Nodup) (hmem : (d, result) ∈ joined)
    (hdomain : d ∈ domains) :
    (collect domains joined).entry d = (result.values?, result.error?) := by
  rw [collect, entry_foldl_fillIn, if_pos hdomain, entry_foldl_join_of_mem nodup hmem rfl,
    filled_entry]

theorem entry_collect_of_not_mem (hother : d ∉ joined.map Prod.fst) (hdomain : d ∉ domains) :
    (collect domains joined).entry d = (none, none) := by
  rw [collect, entry_foldl_fillIn, if_neg hdomain, entry_foldl_join_of_not_mem hother]
  rfl

/-- The order in which tasks are joined does not show in what comes in. -/
theorem collect_perm (nodup : (joined.map Prod.fst).Nodup) (perm : joined.Perm joined') :
    collect domains joined = collect domains joined' := by
  refine eq_of_entry (fun d => ?_)
  have nodup' : (joined'.map Prod.fst).Nodup := (perm.map Prod.fst).nodup_iff.1 nodup
  have same : (joined.foldl join {}).entry d = (joined'.foldl join {}).entry d := by
    by_cases hd : d ∈ joined.map Prod.fst
    · obtain ⟨⟨_, result⟩, hmem, rfl⟩ := List.mem_map.1 hd
      rw [entry_foldl_join_of_mem nodup hmem rfl,
        entry_foldl_join_of_mem nodup' (perm.mem_iff.1 hmem) rfl]
    · have hd' : d ∉ joined'.map Prod.fst := fun h => hd ((perm.map Prod.fst).mem_iff.2 h)
      rw [entry_foldl_join_of_not_mem hd, entry_foldl_join_of_not_mem hd']
  simp only [collect, entry_foldl_fillIn, same]

end Filling

end Gathered

namespace Engine

variable {e : Engine} {level plan : String} {began ended : Utc} {tasks : Table String RoundTask}

theorem get?_results (tasks : Table String RoundTask) (domain : String) :
    (results tasks).get? domain = (tasks.get? domain).bind RoundTask.result? :=
  Table.get?_filterMap ..

/-- However the tasks of a round are joined, its batch is the same. -/
theorem batchOf_of_perm {joined : List (String × CollectResult)}
    (perm : joined.Perm (results tasks).toList) :
    (e.batchOf level plan began ended tasks).values =
        (Gathered.collect tasks.keys joined).values ∧
      (e.batchOf level plan began ended tasks).errors =
        (Gathered.collect tasks.keys joined).errors := by
  rw [← Gathered.collect_perm (results tasks).nodup_keys perm.symm]
  exact ⟨rfl, rfl⟩

theorem get?_batchOf (e : Engine) (level plan : String) (began ended : Utc)
    {tasks : Table String RoundTask} {domain : String} {task : RoundTask} {result : CollectResult}
    (htask : tasks.get? domain = some task) (hresult : task.result? = some result) :
    (e.batchOf level plan began ended tasks).values.get? domain = result.values? ∧
      (e.batchOf level plan began ended tasks).errors.get? domain = result.error? := by
  have hmem : domain ∈ tasks.keys := Table.mem_keys.2 (Table.mem_iff.2 ⟨task, htask⟩)
  have hjoined : (domain, result) ∈ (results tasks).toList :=
    Table.get?_eq_some_iff.1 (by rw [get?_results, htask, Option.bind_some, hresult])
  exact Prod.mk.inj (Gathered.entry_collect_of_mem (results tasks).nodup_keys hjoined hmem)

theorem get?_batchOf_of_none (e : Engine) (level plan : String) (began ended : Utc)
    {tasks : Table String RoundTask} {domain : String} (hnone : tasks.get? domain = none) :
    (e.batchOf level plan began ended tasks).values.get? domain = none ∧
      (e.batchOf level plan began ended tasks).errors.get? domain = none := by
  have hother : domain ∉ (results tasks).keys :=
    Table.get?_eq_none_iff.1 (by rw [get?_results, hnone, Option.bind_none])
  exact Prod.mk.inj (Gathered.entry_collect_of_not_mem hother (Table.get?_eq_none_iff.1 hnone))

/-- A batch has an entry for each task of its round and for nothing else. -/
theorem mem_batchOf
    (hended : ∀ domain task, tasks.get? domain = some task → task.result?.isSome = true)
    (domain : String) :
    (domain ∈ (e.batchOf level plan began ended tasks).values ∨
        domain ∈ (e.batchOf level plan began ended tasks).errors) ↔
      (tasks.get? domain).isSome = true := by
  cases htask : tasks.get? domain with
  | none =>
      have habsent := e.get?_batchOf_of_none level plan began ended htask
      simp [Table.mem_iff, habsent]
  | some task =>
      obtain ⟨result, hresult⟩ := Option.isSome_iff_exists.1 (hended domain task htask)
      obtain ⟨hvalues, herrors⟩ := e.get?_batchOf level plan began ended htask hresult
      rw [Table.mem_iff, Table.mem_iff, hvalues, herrors, ← Option.isSome_iff_exists,
        ← Option.isSome_iff_exists]
      simp [CollectResult.isSome_values_or_error]

end Engine

end Cadence
