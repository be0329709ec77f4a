import Cadence.Proofs.Plan.Narrowing

/-!
# What a collector has been asked for

A collector answers from the plan that was committed last, whatever was staged and
live before.  It knows a level by its name alone, and its own domain only: so what
a level asks for is found among the levels that collect the domain.
-/

namespace Cadence

namespace Plan

/-- What the plan asks of a domain at the level of this name; of levels that share a name, the last
one that collects the domain counts. -/
def entryFor? (plan : Plan) (level domain : String) : Option Domain :=
  ((plan.levelsWith domain).reverse.find? (·.name = level)).bind (·.collect.get? domain)

variable {plan : Plan} {level domain : String}

/-- A selection is looked up as the level is, among those that collect the domain. -/
private theorem lookup_filterMap (levels : List Level) (domain level : String) :
    (levels.filterMap (fun l =>
        l.collect[domain]?.map (fun d => (l.name, Selected.ofDomain d)))).lookup level =
      (((levels.filter (·.collect.contains domain)).find? (·.name = level)).bind
        (·.collect.get? domain)).map .ofDomain := by
  induction levels with
  | nil => rfl
  | cons first rest ih =>
      cases hfirst : first.collect.get? domain with
      | none => simpa [Table.contains, hfirst] using ih
      | some d =>
          rw [List.filterMap_cons_some (b := (first.name, .ofDomain d)) (by simp [hfirst]),
            List.filter_cons_of_pos (by simp [Table.contains, hfirst]), Table.lookup_cons_ite, ih]
          by_cases hname : first.name = level
          · simp [hname, hfirst]
          · simp [hname, Ne.symm hname]

theorem get?_selections_eq_entryFor? (plan : Plan) (domain level : String) :
    (plan.selections domain).get? level = (plan.entryFor? level domain).map .ofDomain := by
  rw [selections, Table.get?_ofList, ← List.filterMap_reverse, lookup_filterMap, entryFor?, levelsWith,
    List.filter_reverse]

theorem entryFor?_eq_none_iff :
    plan.entryFor? level domain = none ↔
      ∀ l ∈ plan.levels.values, l.name = level → domain ∉ l.collect := by
  constructor
  · intro hnone l hl hname hcollects
    have hmem : l ∈ (plan.levelsWith domain).reverse :=
      List.mem_reverse.2 (List.mem_filter.2 ⟨hl, hcollects⟩)
    cases hfind : (plan.levelsWith domain).reverse.find? (·.name = level) with
    | none => simpa [hname] using List.find?_eq_none.1 hfind l hmem
    | some found =>
        have hfound := List.mem_reverse.1 (List.mem_of_find?_eq_some hfind)
        obtain ⟨d, hd⟩ := Table.mem_iff.1 (List.mem_filter.1 hfound).2
        rw [entryFor?, hfind, Option.bind_some, hd] at hnone
        contradiction
  · intro hnone
    have hfind : (plan.levelsWith domain).reverse.find? (·.name = level) = none := by
      refine List.find?_eq_none.2 fun l hl => ?_
      obtain ⟨hl, hcollects⟩ := List.mem_filter.1 (List.mem_reverse.1 hl)
      intro hname
      exact hnone l hl (of_decide_eq_true hname) hcollects
    rw [entryFor?, hfind]
    rfl

end Plan

theorem Selection.get?_commit_stage (s : Selection) (plan : Plan) (domain level : String) :
    (s.stage plan domain).commit.get? level = (plan.entryFor? level domain).map .ofDomain :=
  plan.get?_selections_eq_entryFor? domain level

end Cadence
