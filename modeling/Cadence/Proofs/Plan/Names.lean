import Cadence.Engine.Basic
import Cadence.Plan.Store
import Cadence.Table.Lemmas

/-!
# Levels and domains by name

A plan keeps its levels by key, while whoever collects knows a level by its
name.  The two agree in every plan built from a map of levels.  Here the level
of a name is looked up in general, and so is what the plan asks of a domain
there; selections and the live state answer with exactly that.  A store likewise
keeps each plan under the name that the plan has.
-/

namespace Cadence

namespace Plan

def NamedByKey (plan : Plan) : Prop := ∀ e ∈ plan.levels.toList, e.2.name = e.1

instance (plan : Plan) : Decidable plan.NamedByKey :=
  inferInstanceAs (Decidable (∀ e ∈ plan.levels.toList, e.2.name = e.1))

/-- The level of this name; of levels that share a name, the last one counts. -/
def levelNamed? (plan : Plan) (name : String) : Option Level :=
  plan.levels.values.reverse.find? (·.name = name)

/-- What the plan asks of a domain at a level: the metrics and the options of its entry there. -/
def asks? (plan : Plan) (level domain : String) : Option Selected :=
  ((plan.levelNamed? level).bind (·.collect[domain]?)).map
    (fun entry => { metrics := entry.metrics, options := entry.options })

theorem ofLevels_namedByKey (name source : String) (levels : Table String Level) :
    (ofLevels name source levels).NamedByKey := by
  intro e he
  obtain ⟨⟨key, level⟩, -, rfl⟩ := List.mem_map.1 he
  rfl

theorem NamedByKey.name_eq {plan : Plan} (h : plan.NamedByKey) {key : String} {level : Level}
    (hlevel : plan.levels.get? key = some level) : level.name = key :=
  h _ (Table.get?_eq_some_iff.1 hlevel)

theorem levelNamed?_eq_get? {plan : Plan} (h : plan.NamedByKey) (name : String) :
    plan.levelNamed? name = plan.levels.get? name := by
  cases hfind : plan.levelNamed? name with
  | none =>
      cases hget : plan.levels.get? name with
      | none => rfl
      | some level =>
          have hmem : level ∈ plan.levels.values.reverse :=
            List.mem_reverse.2 (Table.mem_values.2 ⟨name, hget⟩)
          have := List.find?_eq_none.1 hfind level hmem
          simp [h.name_eq hget] at this
  | some level =>
      obtain ⟨key, hget⟩ := Table.mem_values.1 (List.mem_reverse.1 (List.mem_of_find?_eq_some hfind))
      have hname : level.name = name := by simpa using List.find?_some hfind
      rw [← hname, h.name_eq hget, hget]

private theorem lookup_selected {levels : List Level} {name domain : String} {level : Level}
    {d : Domain} (hfind : levels.find? (·.name = name) = some level)
    (hd : level.collect.get? domain = some d) :
    (levels.filterMap (fun l => l.collect[domain]?.map (fun d => (l.name, Selected.ofDomain d)))).lookup
      name = some (.ofDomain d) := by
  induction levels with
  | nil => simp at hfind
  | cons first rest ih =>
      by_cases hname : first.name = name
      · obtain rfl : first = level := by simpa [hname] using hfind
        simp [hd, hname]
      · have hrest := ih (by simpa [hname] using hfind)
        cases hfirst : first.collect.get? domain with
        | none => simpa [hfirst] using hrest
        | some own =>
            simpa [hfirst, Table.lookup_cons_ite, Ne.symm hname] using hrest

theorem get?_selections {plan : Plan} {name domain : String} {level : Level} {d : Domain}
    (hlevel : plan.levelNamed? name = some level) (hd : level.collect.get? domain = some d) :
    (plan.selections domain).get? name = some { metrics := d.metrics, options := d.options } := by
  rw [selections, Table.get?_ofList, ← List.filterMap_reverse]
  exact lookup_selected hlevel hd

private theorem mem_insertAll (names : Table String Unit) (domains : List String) (d : String) :
    d ∈ domains.foldl (fun names d => names.insert d ()) names ↔ d ∈ domains ∨ d ∈ names := by
  induction domains generalizing names with
  | nil => simp
  | cons first rest ih =>
      simp [ih, Table.mem_insert, or_assoc, or_left_comm]

private theorem mem_insertLevels (names : Table String Unit) (levels : List Level) (d : String) :
    d ∈ levels.foldl (fun names level =>
        level.collect.keys.foldl (fun names d => names.insert d ()) names) names ↔
      (∃ level ∈ levels, d ∈ level.collect) ∨ d ∈ names := by
  induction levels generalizing names with
  | nil => simp
  | cons first rest ih =>
      simp [ih, mem_insertAll, Table.mem_keys, or_assoc, or_left_comm]

theorem mem_domains {plan : Plan} {d : String} :
    d ∈ plan.domains ↔ ∃ level ∈ plan.levels.values, d ∈ level.collect := by
  rw [domains, Table.mem_keys, mem_insertLevels]
  simp [Table.mem_iff]

theorem mem_domains_of_levelNamed? {plan : Plan} {name d : String} {level : Level}
    (hlevel : plan.levelNamed? name = some level) (hd : d ∈ level.collect) : d ∈ plan.domains :=
  mem_domains.2 ⟨level, List.mem_reverse.1 (List.mem_of_find?_eq_some hlevel), hd⟩

end Plan

private theorem lookup_map_name {β : Type} (levels : List Level) (f : Level → β) (name : String) :
    (levels.map (fun l => (l.name, f l))).lookup name = (levels.find? (·.name = name)).map f := by
  induction levels with
  | nil => rfl
  | cons first rest ih =>
      rw [List.map_cons, Table.lookup_cons_ite, ih]
      by_cases hname : first.name = name
      · simp [hname]
      · simp [hname, Ne.symm hname]

/-- The live state finds a level by its name, with the collectors of its domains. -/
theorem LiveState.get?_levels_ofPlan (plan : Plan) (collectors : Table String Nat)
    (cleanups : List Cleanup) (name : String) :
    (LiveState.ofPlan plan collectors cleanups).levels.get? name =
      (plan.levelNamed? name).map
        (fun level => level.collect.filterMap (fun domain _ => collectors[domain]?)) := by
  rw [ofPlan, Table.get?_ofList, ← List.map_reverse]
  exact lookup_map_name _ _ name

namespace PlanStore

def Named (store : PlanStore) : Prop :=
  ∀ name plan, store.plans.get? name = some plan → plan.name = name

variable {store : PlanStore} {plan : Plan} {name : String}

theorem named_empty : empty.Named := by
  simp [Named, empty]

theorem Named.add (h : store.Named) (plan : Plan) : (store.add plan).Named := by
  intro name found hfound
  rw [PlanStore.add, Table.get?_insert] at hfound
  split at hfound
  · next hname =>
      obtain rfl := Option.some.inj hfound
      exact hname.symm
  · exact h name found hfound

theorem Named.name_of_find (h : store.Named) (hname : name ≠ "")
    (hfound : store.find name = .ok plan) : plan.name = name := by
  simp only [find, hname, if_false, pure_bind, Table.getElem?_eq_get?] at hfound
  split at hfound
  · next found hget =>
      obtain rfl := Except.ok.inj hfound
      exact h name found hget
  · contradiction

end PlanStore

end Cadence
