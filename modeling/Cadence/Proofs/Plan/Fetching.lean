import Cadence.Proofs.Plan.Files

/-!
# Fetching what is listed

Whoever goes through the names of a store fetches each plan by its name.  The
empty name stands for the plan loaded first, and yet a text can be loaded under
it as under any other name.  So each name fetches the plan that was loaded under
it, with one exception: a plan that was loaded under the empty name behind
another one is listed, and the other one is fetched.
-/

namespace Cadence

namespace PlanStore

def LoadedUnder (steps : Loads) (name : String) (plan : Plan) : Prop :=
  ∃ x ∈ steps, x.action.name = name ∧ x.events = [.ok plan]

variable {reader : Reader} {store last : PlanStore} {plan : Plan} {name : String}
  {request : Request} {steps : Loads} {x : Step PlanStore Request (Except PlanError Plan)}

/-- A file is never loaded under the empty name. -/
theorem Request.unnamed_of_readBy (h : request.readBy reader store = .ok plan)
    (hname : request.name = "") : ∃ source content, request = .text "" source content := by
  cases request with
  | text name source content =>
      obtain rfl : name = "" := hname
      exact ⟨source, content, rfl⟩
  | builtin => simp [name, defaultName] at hname
  | file tree path =>
      exfalso
      rw [name] at hname
      cases hstem : fileStem? path with
      | some stem =>
          obtain rfl : stem = "" := by simpa [hstem] using hname
          exact fileStem?_ne_empty path hstem
      | none =>
          obtain rfl : path = "" := by simpa [hstem] using hname
          rw [readBy] at h
          cases hread : tree.read "" with
          | error e => simp [hread] at h
          | ok content => exact tree.read_empty content hread

theorem readBy_of_loaded (run : Run (serve reader) ∅ steps last) (hx : x ∈ steps)
    (hevents : x.events = [.ok plan]) : x.action.readBy reader x.before = .ok plan := by
  obtain ⟨pre, post, rfl⟩ := List.append_of_mem hx
  obtain ⟨-, served, -⟩ := run.taken
  rcases serve_cases served with ⟨other, hread, hother, -⟩ | ⟨e, -, herror, -⟩
  · rw [hevents] at hother
    obtain rfl : plan = other := by simpa using hother
    exact hread
  · rw [hevents] at herror
    simp at herror

theorem mem_loaded_iff (run : Run (serve reader) ∅ steps last) :
    plan ∈ loaded steps ↔ ∃ x ∈ steps, x.events = [.ok plan] := by
  rw [loaded, List.mem_flatMap]
  refine exists_congr fun x => and_congr_right fun hx => ?_
  obtain ⟨pre, post, rfl⟩ := List.append_of_mem hx
  obtain ⟨-, served, -⟩ := run.taken
  rcases serve_cases served with ⟨other, -, hother, -⟩ | ⟨e, -, herror, -⟩
  · simp [hother, Except.toOption, eq_comm]
  · simp [herror, Except.toOption]

theorem keeps_of_run (run : Run (serve reader) ∅ steps last) : last.Keeps (loaded steps) := by
  induction run with
  | nil => exact keeps_empty
  | snoc run served ih =>
      rcases serve_cases served with ⟨plan, hread, rfl, rfl⟩ | ⟨e, -, rfl, rfl⟩
      · obtain ⟨hfree, -, sound⟩ := Request.readBy_eq_ok hread
        simpa [Except.toOption] using ih.add (ih.get?_eq_none_iff.1 hfree) sound
      · simpa [Except.toOption] using ih

/-- A store keeps exactly what was loaded, under the names that the requests gave. -/
theorem get?_iff_loadedUnder (run : Run (serve reader) ∅ steps last) :
    last.plans.get? name = some plan ↔ LoadedUnder steps name plan := by
  rw [(keeps_of_run run).get?_iff, mem_loaded_iff run, LoadedUnder]
  constructor
  · rintro ⟨⟨x, hx, hevents⟩, rfl⟩
    exact ⟨x, hx, (Request.readBy_eq_ok (readBy_of_loaded run hx hevents)).2.1.symm, hevents⟩
  · rintro ⟨x, hx, rfl, hevents⟩
    exact ⟨⟨x, hx, hevents⟩, (Request.readBy_eq_ok (readBy_of_loaded run hx hevents)).2.1⟩

/-- Under every name that a store lists one plan was loaded, which bears the name, and fetching the
name succeeds.  It returns that plan, unless the name is the empty one, which a text has been loaded
under, and another plan has been loaded before. -/
theorem fetched_by_name (run : Run (serve reader) ∅ steps last) (listed : name ∈ last.names) :
    ∃ plan, LoadedUnder steps name plan ∧ (∀ other, LoadedUnder steps name other → other = plan) ∧
      plan.name = name ∧
      (last.find name = .ok plan ∨
        name = "" ∧
          (∃ x ∈ steps, x.events = [.ok plan] ∧ ∃ source content, x.action = .text "" source content) ∧
          ∃ first, (loaded steps).head? = some first ∧ first.name ≠ "" ∧
            last.find name = .ok first) := by
  have keeps := keeps_of_run run
  obtain ⟨plan, hget⟩ := Table.mem_iff.1 (Table.mem_keys.1 listed)
  obtain ⟨hmem, hname⟩ := keeps.get?_iff.1 hget
  have hloaded := (get?_iff_loadedUnder run).1 hget
  refine ⟨plan, hloaded, fun other hother => ?_, hname, ?_⟩
  · rw [← get?_iff_loadedUnder run, hget] at hother
    exact (Option.some.inj hother).symm
  · by_cases hempty : name = ""
    · obtain ⟨first, hfirst⟩ := Option.isSome_iff_exists.1
        (List.isSome_head?.2 (List.ne_nil_of_mem hmem))
      have hfind : last.find name = .ok first := by simp [keeps.find, hempty, hfirst]
      by_cases hsame : first = plan
      · exact .inl (hsame ▸ hfind)
      · obtain ⟨x, hx, hrequest, hevents⟩ := hloaded
        refine .inr ⟨hempty, ⟨x, hx, hevents, ?_⟩, first, hfirst, fun hunnamed => ?_, hfind⟩
        · exact Request.unnamed_of_readBy (readBy_of_loaded run hx hevents) (hrequest.trans hempty)
        · have hboth := keeps.get?_iff.2 ⟨List.mem_of_head? hfirst, hunnamed.trans hempty.symm⟩
          rw [hget] at hboth
          exact hsame (Option.some.inj hboth).symm
    · left
      rw [← hname]
      exact keeps.find_of_mem hmem (hname ▸ hempty)

/-- A plan under a name of its own, one more that is refused, and one under the empty name. -/
def unnamedBehind : Loads × PlanStore :=
  Run.follow (serve Plan.levelsOfYaml?) ∅
    [.text "p" "inline" "kpi:\n  freq: 1s\n", .text "p" "other" "{}",
      .text "" "unnamed" "kpi:\n  freq: 2s\n"]

theorem fetched_by_name_unnamedBehind :
    Run (serve Plan.levelsOfYaml?) ∅ unnamedBehind.1 unnamedBehind.2 ∧
      "p" ∈ unnamedBehind.2.names ∧
      ∃ plan, LoadedUnder unnamedBehind.1 "p" plan ∧ unnamedBehind.2.find "p" = .ok plan := by
  have hrun : Run (serve Plan.levelsOfYaml?) ∅ unnamedBehind.1 unnamedBehind.2 := Run.of_follow ..
  have hlisted : "p" ∈ unnamedBehind.2.names := by decide +kernel
  refine ⟨hrun, hlisted, ?_⟩
  obtain ⟨plan, hloaded, -, -, hfound | ⟨hempty, -⟩⟩ := fetched_by_name hrun hlisted
  · exact ⟨plan, hloaded, hfound⟩
  · exact absurd hempty (by decide)

/-- Both plans are listed, and the empty name fetches the one that bears the other name. -/
theorem listed_but_not_fetched :
    Run (serve Plan.levelsOfYaml?) ∅ unnamedBehind.1 unnamedBehind.2 ∧
      unnamedBehind.2.names = ["", "p"] ∧
      (unnamedBehind.2.find "").map (·.name) = .ok "p" ∧
      ¬ ∀ name ∈ unnamedBehind.2.names, ∃ plan, LoadedUnder unnamedBehind.1 name plan ∧
        unnamedBehind.2.find name = .ok plan ∧ plan.name = name := by
  have hfetched : (unnamedBehind.2.find "").map (·.name) = .ok "p" := by decide +kernel
  refine ⟨Run.of_follow .., by decide +kernel, hfetched, fun hall => ?_⟩
  obtain ⟨plan, -, hfound, hname⟩ := hall "" (by decide +kernel)
  simp [hfound, hname, Except.map] at hfetched

end PlanStore

end Cadence
