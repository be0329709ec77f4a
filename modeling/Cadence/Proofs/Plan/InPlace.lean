import Cadence.Proofs.Plan.Inheritance

/-!
# Sorting in place

A plan is sorted where it stands: the levels are folded one into the other,
domain by domain, and what has been written by the time something goes wrong is
not taken back.  Levels are looked up under their names meanwhile, which fails
if a name is no key.  Here the writes are made one by one, and they come to the
same as sorting at one go.
-/

namespace Cadence

/-- Why a plan has not been sorted. -/
inductive SortFailure where
  | refused (e : PlanError)
  /-- The level is looked up under its name and is not there. -/
  | missing (name : String)
  deriving DecidableEq

namespace Plan

abbrev Sorting := EStateM SortFailure Plan

def Sorting.require {α : Type} : Except PlanError α → Sorting α
  | .ok a => pure a
  | .error e => throw (.refused e)

/-- What a level collects, once a domain of a finer level is folded in. -/
def foldDomain (collect : Table String Domain) (entry : String × Domain) : Table String Domain :=
  match collect[entry.1]? with
  | some own => collect.insert entry.1 { own with metrics := own.metrics ++ entry.2.metrics }
  | none => collect.insert entry.1 entry.2

def foldDomainInPlace (key : String) (entry : String × Domain) : Sorting Unit :=
  modify fun plan => { plan with
    levels := plan.levels.modify key fun level =>
      { level with collect := foldDomain level.collect entry } }

def foldLevelInPlace (finer coarser : String) : Sorting Unit := do
  match (← get).levels[finer]? with
  | none => throw (.missing finer)
  | some source =>
      if (← get).levels.contains coarser then
        forM source.collect.toList (foldDomainInPlace coarser)

def inheritInPlace : List SortedLevel → Sorting Unit
  | [] => pure ()
  | level :: rest => do
      forM rest (fun other => foldLevelInPlace level.name other.name)
      inheritInPlace rest

def sortInPlace : Sorting (List SortedLevel) := do
  let plan ← get
  Sorting.require plan.validate
  let levels ← Sorting.require (plan.levels.values.mapM (fun level => do
    return { name := level.name, freq := ← freqSecs plan.name level : SortedLevel }))
  let sorted := byFreq levels
  if plan.inherited then return sorted
  inheritInPlace sorted
  modify fun plan => { plan with inherited := true }
  return sorted

variable {plan sorted : Plan} {order : List SortedLevel} {finer coarser : String}

theorem fold_eq_foldl (finer coarser : Table String Domain) :
    fold finer coarser = finer.toList.foldl foldDomain coarser := rfl

/-- Domain by domain, a level takes in all that it is given. -/
theorem run_foldDomains (key : String) (entries : List (String × Domain)) (plan : Plan) :
    (forM entries (foldDomainInPlace key)).run plan =
      .ok () { plan with
        levels := plan.levels.modify key fun level =>
          { level with collect := entries.foldl foldDomain level.collect } } := by
  induction entries generalizing plan with
  | nil =>
      have hsame : plan.levels.modify key (fun level => level) = plan.levels := by
        ext key' : 1
        rw [Table.get?_modify]
        split <;> simp [*]
      simp [hsame]
  | cons entry rest ih =>
      have hboth : (plan.levels.modify key fun level =>
            { level with collect := foldDomain level.collect entry }).modify key (fun level =>
              { level with collect := rest.foldl foldDomain level.collect }) =
          plan.levels.modify key fun level =>
            { level with collect := (entry :: rest).foldl foldDomain level.collect } := by
        ext key' : 1
        simp only [Table.get?_modify, if_true]
        split
        · rw [Option.map_map]
          rfl
        · rfl
      rw [List.forM_cons, EStateM.run_bind, foldDomainInPlace, EStateM.run_modify]
      simp only [ih, hboth]

/-- A level is folded into another one if it is found under its name. -/
theorem run_foldLevelInPlace (finer coarser : String) (plan : Plan) :
    (foldLevelInPlace finer coarser).run plan =
      if finer ∈ plan.levels then
        .ok () { plan with levels := foldLevel plan.levels finer coarser }
      else .error (.missing finer) plan := by
  unfold foldLevelInPlace
  rw [EStateM.run_bind, EStateM.run_get]
  cases hfiner : plan.levels.get? finer with
  | none =>
      have habsent : finer ∉ plan.levels := by simp [Table.mem_iff, hfiner]
      simp only [Table.getElem?_eq_get?, hfiner, if_neg habsent]
      rfl
  | some source =>
      have hthere : finer ∈ plan.levels := Table.mem_iff.2 ⟨source, hfiner⟩
      simp only [Table.getElem?_eq_get?, hfiner, if_pos hthere, EStateM.run_bind, EStateM.run_get]
      cases hcoarser : plan.levels.get? coarser with
      | none =>
          have hnot : plan.levels.contains coarser = false := by simp [Table.contains, hcoarser]
          simp [hnot, foldLevel, hfiner, hcoarser]
      | some target =>
          have hin : plan.levels.contains coarser = true := by simp [Table.contains, hcoarser]
          simp only [hin, if_true, run_foldDomains, foldLevel, Table.getElem?_eq_get?, hfiner, hcoarser,
            Table.modify, fold_eq_foldl]

theorem mem_foldLevel {levels : Table String Level} {key : String} :
    key ∈ foldLevel levels finer coarser ↔ key ∈ levels := by
  rw [mem_iff_heading?, heading?_foldLevel, ← mem_iff_heading?]

theorem run_foldLevels (hfiner : finer ∈ plan.levels) (order : List SortedLevel) :
    (forM order (fun other => foldLevelInPlace finer other.name)).run plan =
      .ok () { plan with
        levels := order.foldl (fun levels other => foldLevel levels finer other.name)
          plan.levels } := by
  induction order generalizing plan with
  | nil => rfl
  | cons other rest ih =>
      rw [List.forM_cons, EStateM.run_bind, run_foldLevelInPlace, if_pos hfiner]
      exact ih (mem_foldLevel.2 hfiner)

/-- Inheritance comes to its end in place, unless it looks for a level under a name that is no
key. -/
theorem run_inheritInPlace (order : List SortedLevel) (plan : Plan) :
    (inheritInPlace order).run plan = .ok () { plan with levels := inherit plan.levels order } ∨
      ∃ level ∈ order, ∃ after, level.name ∉ plan.levels ∧
        (inheritInPlace order).run plan = .error (.missing level.name) after := by
  induction order generalizing plan with
  | nil => exact .inl rfl
  | cons level rest ih =>
      rw [inheritInPlace, EStateM.run_bind]
      by_cases hlevel : level.name ∈ plan.levels
      · rw [run_foldLevels hlevel]
        apply (ih _).imp_right
        rintro ⟨other, hother, after, habsent, hrun⟩
        refine ⟨other, List.mem_cons_of_mem _ hother, after, ?_, hrun⟩
        rwa [mem_iff_heading?, heading?_foldLevels, ← mem_iff_heading?] at habsent
      · cases rest with
        | nil => exact .inl rfl
        | cons other rest =>
            refine .inr ⟨level, List.mem_cons_self, plan, hlevel, ?_⟩
            rw [List.forM_cons, EStateM.run_bind, run_foldLevelInPlace, if_neg hlevel]

/-- Sorting in place ends as sorting does, and a plan that is refused has not been touched; or else
a name is no key. -/
theorem run_sortInPlace (plan : Plan) :
    (sortInPlace.run plan =
        match plan.sort with
        | .ok (order, sorted) => .ok order sorted
        | .error e => .error (.refused e) plan) ∨
      plan.inherited = false ∧ ∃ level ∈ plan.order, ∃ after, level.name ∉ plan.levels ∧
        sortInPlace.run plan = .error (.missing level.name) after := by
  have horder : byFreq (plan.levels.values.map
      (fun level => ⟨level.name, seconds plan.name level⟩)) = plan.order := rfl
  rw [sort_eq]
  cases hvalid : plan.validate with
  | error e =>
      left
      simp only [sortInPlace, EStateM.run_bind, EStateM.run_get, hvalid, Sorting.require]
      rfl
  | ok _ =>
      simp only [sortInPlace, EStateM.run_bind, EStateM.run_get, hvalid, Sorting.require,
        mapM_freqSecs hvalid, EStateM.run_pure, Except.map, horder]
      cases hinherited : plan.inherited with
      | true =>
          left
          rw [inheriting, if_pos hinherited]
          rfl
      | false =>
          have hfresh : ¬ false = true := Bool.false_ne_true
          rw [inheriting, hinherited, if_neg hfresh]
          simp only [if_neg hfresh, EStateM.run_bind]
          rcases run_inheritInPlace plan.order plan with hrun | ⟨level, hlevel, after, habsent, hrun⟩
          · left
            rw [hrun]
            rfl
          · right
            refine ⟨trivial, level, hlevel, after, habsent, ?_⟩
            rw [hrun]

theorem sort_of_sortInPlace (h : sortInPlace.run plan = .ok order sorted) :
    plan.sort = .ok (order, sorted) := by
  rcases run_sortInPlace plan with hrun | ⟨-, level, -, after, -, hrun⟩
  · rw [h] at hrun
    cases hsort : plan.sort with
    | ok result =>
        rw [hsort] at hrun
        obtain ⟨rfl, rfl⟩ : order = result.1 ∧ sorted = result.2 := by simpa using hrun
        rfl
    | error e => simp [hsort] at hrun
  · simp [h] at hrun

/-- A plan whose levels are named by their keys is sorted in place without fail, and so is one that
has been sorted before. -/
theorem run_sortInPlace_of_named (h : plan.inherited = true ∨ plan.NamedByKey) :
    sortInPlace.run plan =
      match plan.sort with
      | .ok (order, sorted) => .ok order sorted
      | .error e => .error (.refused e) plan := by
  rcases run_sortInPlace plan with hrun | ⟨hfresh, level, hlevel, after, habsent, -⟩
  · exact hrun
  · have named := h.resolve_left (by simp [hfresh])
    have hname : level.name ∈ plan.levels.keys :=
      (perm_order_names named).mem_iff.1 (List.mem_map_of_mem hlevel)
    exact absurd (Table.mem_keys.1 hname) habsent

end Plan

end Cadence
