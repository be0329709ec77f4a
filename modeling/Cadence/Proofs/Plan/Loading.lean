import Cadence.Proofs.Plan.Names
import Cadence.Proofs.Run

/-!
# Loading for good

A store is filled by requests, one after the other: a text under a name, a file,
the builtin plan.  A request works on the store in place, and an error does not
take back what has been written before it.  Still a request that fails leaves
the store alone, because nothing is written before the last check has passed.
So whatever the requests, and whatever reads levels from a text, the store holds
exactly the plans that were taken up, each as it was when it was taken up.
-/

namespace Cadence

def Level.NamedByKey (level : Level) : Prop := ∀ e ∈ level.collect.toList, e.2.name = e.1

theorem Level.namedByKey_nameLevel (key : String) (level : Level) :
    (Plan.nameLevel key level).NamedByKey := by
  intro e he
  obtain ⟨⟨name, domain⟩, -, rfl⟩ := List.mem_map.1 he
  rfl

/-- What everything behind the store relies on in a plan. -/
structure Plan.Sound (plan : Plan) : Prop where
  valid : plan.validate = .ok ()
  asWritten : plan.inherited = false
  levels : plan.NamedByKey
  domains : ∀ level ∈ plan.levels.values, level.NamedByKey

theorem Plan.Sound.ofLevels {name source : String} {levels : Table String Level}
    (valid : (Plan.ofLevels name source levels).validate = .ok ()) :
    (Plan.ofLevels name source levels).Sound where
  valid := valid
  asWritten := rfl
  levels := ofLevels_namedByKey name source levels
  domains := by
    intro level hlevel
    obtain ⟨key, hget⟩ := Table.mem_values.1 hlevel
    rw [Plan.ofLevels, Table.get?_map, Option.map_eq_some_iff] at hget
    obtain ⟨own, -, rfl⟩ := hget
    exact Level.namedByKey_nameLevel key own

namespace PlanStore

/-- Whatever reads a map of levels from a text, or fails to. -/
abbrev Reader := String → Option (Table String Level)

/-- The plan in a text, as any reader of levels has it. -/
def readBy (reader : Reader) (store : PlanStore) (name source text : String) :
    Except PlanError Plan := do
  if let some existing := store.plans[name]? then
    throw (.duplicatePlan name existing.source)
  match reader text with
  | none => throw (.malformed name)
  | some levels =>
      let plan := Plan.ofLevels name source levels
      plan.validate
      return plan

/-- Loads a text into the store in place. -/
def loadInPlace (reader : Reader) (name source text : String) :
    EStateM PlanError PlanStore Plan := do
  if let some existing := (← get).plans[name]? then
    throw (.duplicatePlan name existing.source)
  match reader text with
  | none => throw (.malformed name)
  | some levels =>
      let plan := Plan.ofLevels name source levels
      if let .error e := plan.validate then
        throw e
      if (← get).first.isNone then
        modify (fun store => { store with first := some name })
      -- an entry that is there already would be kept
      match (← get).plans[name]? with
      | some existing => return existing
      | none =>
          modify (fun store => { store with plans := store.plans.insert name plan })
          return plan

inductive Request where
  | text (name source content : String)
  | file (tree : FileTree) (path : String)
  | builtin

namespace Request

def load (store : PlanStore) : Request → Except PlanError PlanStore
  | text name source content => store.load name source content
  | file tree path => (store.loadFile tree path).map (·.2)
  | builtin => store.withDefault

def inPlace (reader : Reader) : Request → EStateM PlanError PlanStore Plan
  | text name source content => loadInPlace reader name source content
  | file tree path =>
      match tree.read path with
      | .error e => throw (.unreadable path e.message)
      | .ok content => loadInPlace reader ((fileStem? path).getD path) path content
  | builtin => loadInPlace reader defaultName "builtin" defaultText

/-- The name under which a request loads. -/
def name : Request → String
  | text name _ _ => name
  | file _ path => (fileStem? path).getD path
  | builtin => defaultName

/-- The plan that a request asks for. -/
def readBy (reader : Reader) (store : PlanStore) : Request → Except PlanError Plan
  | text name source content => PlanStore.readBy reader store name source content
  | file tree path =>
      match tree.read path with
      | .error e => .error (.unreadable path e.message)
      | .ok content => PlanStore.readBy reader store ((fileStem? path).getD path) path content
  | builtin => PlanStore.readBy reader store defaultName "builtin" defaultText

end Request

/-- Serves one request; the answer is the plan taken up or the error. -/
def serve (reader : Reader) (store : PlanStore) (request : Request) :
    Option (PlanStore × List (Except PlanError Plan)) :=
  match (request.inPlace reader).run store with
  | .ok plan store => some (store, [.ok plan])
  | .error e store => some (store, [.error e])

/-- The requests so far with their answers. -/
abbrev Loads := List (Step PlanStore Request (Except PlanError Plan))

/-- The plans taken up, the first one first. -/
def loaded (steps : Loads) : List Plan :=
  steps.flatMap (fun step => step.events.filterMap Except.toOption)

variable {reader : Reader} {store store' last : PlanStore} {plan : Plan}
  {name source text : String} {request : Request} {answers : List (Except PlanError Plan)}
  {steps : Loads}

/-! ### One request -/

theorem readBy_levelsOfYaml? (store : PlanStore) (name source text : String) :
    store.readBy Plan.levelsOfYaml? name source text = store.read name source text := rfl

theorem readBy_eq_ok (h : store.readBy reader name source text = .ok plan) :
    store.plans.get? name = none ∧ plan.name = name ∧ plan.Sound := by
  unfold readBy at h
  cases hfree : store.plans.get? name with
  | some existing => simp [hfree, bind, Except.bind] at h
  | none =>
      cases hread : reader text with
      | none => simp [hfree, hread] at h
      | some levels =>
          cases hvalid : (Plan.ofLevels name source levels).validate with
          | error e => simp [hfree, hread, hvalid, bind, Except.bind] at h
          | ok _ =>
              simp only [hfree, hread, hvalid, bind, Except.bind, Table.getElem?_eq_get?, pure,
                Except.pure, Except.ok.injEq] at h
              subst h
              exact ⟨rfl, rfl, .ofLevels hvalid⟩

/-- Nothing has been written when an error ends the loading. -/
theorem run_loadInPlace (reader : Reader) (store : PlanStore) (name source text : String) :
    (loadInPlace reader name source text).run store =
      match store.readBy reader name source text with
      | .ok plan => .ok plan (store.add plan)
      | .error e => .error e store := by
  unfold loadInPlace readBy
  cases hfree : store.plans.get? name with
  | some existing =>
      simp only [EStateM.run_bind, EStateM.run_get, Table.getElem?_eq_get?, hfree]
      rfl
  | none =>
      cases hread : reader text with
      | none =>
          simp [hfree]
          rfl
      | some levels =>
          cases hvalid : (Plan.ofLevels name source levels).validate with
          | error e => simp [hfree, hvalid]
          | ok _ =>
              simp only [EStateM.run_bind, EStateM.run_get, Table.getElem?_eq_get?, hfree, hvalid]
              change _ = EStateM.Result.ok _ (store.add (Plan.ofLevels name source levels))
              rw [add]
              cases hfirst : store.first with
              | none =>
                  simp only [EStateM.run_bind, EStateM.run_get, EStateM.run_modify, hfree,
                    Option.isNone_none, if_true]
                  rfl
              | some first =>
                  simp only [EStateM.run_bind, EStateM.run_get, EStateM.run_modify, hfree,
                    Option.isNone_some, Bool.false_eq_true, if_false, hfirst]
                  rfl

theorem Request.text_of_readBy (h : request.readBy reader store = .ok plan) :
    ∃ source content, store.readBy reader request.name source content = .ok plan := by
  cases request with
  | text name source content => exact ⟨source, content, h⟩
  | builtin => exact ⟨_, _, h⟩
  | file tree path =>
      rw [readBy] at h
      cases hread : tree.read path with
      | error e => simp [hread] at h
      | ok content =>
          rw [hread] at h
          exact ⟨path, content, h⟩

theorem Request.readBy_eq_ok (h : request.readBy reader store = .ok plan) :
    store.plans.get? plan.name = none ∧ plan.name = request.name ∧ plan.Sound := by
  obtain ⟨source, content, htext⟩ := request.text_of_readBy h
  obtain ⟨hfree, hname, sound⟩ := PlanStore.readBy_eq_ok htext
  exact ⟨hname ▸ hfree, hname, sound⟩

theorem Request.run_inPlace (reader : Reader) (store : PlanStore) (request : Request) :
    (request.inPlace reader).run store =
      match request.readBy reader store with
      | .ok plan => .ok plan (store.add plan)
      | .error e => .error e store := by
  cases request with
  | text name source content => exact run_loadInPlace reader store name source content
  | builtin => exact run_loadInPlace reader store defaultName "builtin" defaultText
  | file tree path =>
      rw [inPlace, readBy]
      cases tree.read path with
      | error e => rfl
      | ok content => exact run_loadInPlace reader store _ path content

theorem Request.load_eq (store : PlanStore) (request : Request) :
    request.load store = (request.readBy Plan.levelsOfYaml? store).map store.add := by
  cases request with
  | text name source content => rfl
  | builtin => rw [load, readBy, withDefault, PlanStore.load, readBy_levelsOfYaml?]
  | file tree path =>
      rw [load, readBy, loadFile]
      cases tree.read path with
      | error e => rfl
      | ok content =>
          simp only [Except.mapError, PlanStore.load, readBy_levelsOfYaml?, bind, Except.bind]
          cases store.read ((fileStem? path).getD path) path content <;> rfl

/-- A request ends with the plan it has added, or with an error and without a trace. -/
theorem serve_cases (served : serve reader store request = some (store', answers)) :
    (∃ plan, request.readBy reader store = .ok plan ∧ answers = [.ok plan] ∧
        store' = store.add plan) ∨
      ∃ e, request.readBy reader store = .error e ∧ answers = [.error e] ∧ store' = store := by
  rw [serve, Request.run_inPlace] at served
  cases hread : request.readBy reader store with
  | ok plan =>
      rw [hread] at served
      obtain ⟨rfl, rfl⟩ := Prod.mk.inj (Option.some.inj served)
      exact .inl ⟨plan, rfl, rfl, rfl⟩
  | error e =>
      rw [hread] at served
      obtain ⟨rfl, rfl⟩ := Prod.mk.inj (Option.some.inj served)
      exact .inr ⟨e, rfl, rfl, rfl⟩

/-! ### All requests so far -/

@[simp] theorem loaded_append (steps more : Loads) :
    loaded (steps ++ more) = loaded steps ++ loaded more :=
  List.flatMap_append

@[simp] theorem loaded_single (before after : PlanStore) (request : Request)
    (answer : Except PlanError Plan) :
    loaded [⟨before, request, after, [answer]⟩] = answer.toOption.toList := by
  cases answer <;> rfl

/-- The store holds the plans taken up, each under its name, and knows the first of them. -/
structure Holds (store : PlanStore) (plans : List Plan) : Prop where
  sound : ∀ plan ∈ plans, plan.Sound
  first : store.first = plans.head?.map (·.name)
  get? : ∀ name, store.plans.get? name = plans.find? (·.name = name)

variable {plans : List Plan}

theorem holds_empty : empty.Holds [] where
  sound := by simp
  first := rfl
  get? := by simp [empty]

theorem Holds.add (h : store.Holds plans) (hfree : store.plans.get? plan.name = none)
    (sound : plan.Sound) : (store.add plan).Holds (plans ++ [plan]) where
  sound := by
    intro p hp
    rcases List.mem_append.1 hp with hp | hp
    · exact h.sound p hp
    · rwa [List.mem_singleton.1 hp]
  first := by
    rw [PlanStore.add, h.first]
    cases plans <;> rfl
  get? := by
    intro name
    rw [PlanStore.add, Table.get?_insert, List.find?_append, ← h.get?]
    by_cases hname : name = plan.name
    · subst hname
      simp [hfree]
    · simp [hname, Ne.symm hname]

theorem holds_of_run (run : Run (serve reader) ∅ steps last) : last.Holds (loaded steps) := by
  induction run with
  | nil => exact holds_empty
  | snoc run served ih =>
      rcases serve_cases served with ⟨plan, hread, rfl, rfl⟩ | ⟨e, -, rfl, rfl⟩
      · obtain ⟨hfree, -, sound⟩ := Request.readBy_eq_ok hread
        simpa [Except.toOption] using ih.add hfree sound
      · simpa [Except.toOption] using ih

/-- Without a name the store finds what it took up first. -/
theorem Holds.find (h : store.Holds plans) (name : String) :
    store.find name =
      if name = "" then plans.head?.elim (.error .noPlans) .ok
      else (plans.find? (·.name = name)).elim (.error (.unknownPlan name)) .ok := by
  unfold PlanStore.find
  split
  · cases plans with
    | nil =>
        simp only [h.first, List.head?_nil, Option.map_none]
        rfl
    | cons first rest => simp [h.first, h.get?, bind, Except.bind, pure, Except.pure]
  · simp only [pure_bind, Table.getElem?_eq_get?, h.get?]
    cases plans.find? (·.name = name) <;> rfl

/-- What a store finds it finds for good, whatever is taken up behind it. -/
theorem Holds.find_of_prefix {more : List Plan} (before : store.Holds plans)
    (after : last.Holds (plans ++ more)) (hfound : store.find name = .ok plan) :
    last.find name = .ok plan := by
  rw [before.find] at hfound
  rw [after.find, List.head?_append, List.find?_append]
  split
  · next hname =>
      cases hfirst : plans.head? with
      | none => simp [hname, hfirst] at hfound
      | some first => simpa [hname, hfirst] using hfound
  · next hname =>
      cases hentry : plans.find? (·.name = name) with
      | none => simp [hname, hentry] at hfound
      | some entry => simpa [hname, hentry] using hfound

theorem Holds.get?_of_prefix {more : List Plan} (before : store.Holds plans)
    (after : last.Holds (plans ++ more)) (hget : store.plans.get? name = some plan) :
    last.plans.get? name = some plan := by
  rw [before.get?] at hget
  rw [after.get?, List.find?_append, hget, Option.some_or]

/-- Whatever is requested, every plan in the store is sound and under its own name, and there and
found for good from when it was taken up; the plan taken up first is the one found without a name;
and a request that fails changes nothing that the store shows. -/
theorem stored_for_good (run : Run (serve reader) ∅ steps last) :
    (∀ name plan, last.plans.get? name = some plan → plan.name = name ∧ plan.Sound) ∧
      last.find "" = (loaded steps).head?.elim (.error .noPlans) .ok ∧
      ∀ y ∈ steps,
        (∀ name plan, y.after.plans.get? name = some plan → last.plans.get? name = some plan) ∧
        (∀ name plan, y.after.find name = .ok plan → last.find name = .ok plan) ∧
        ((∃ plan, y.events = [.ok plan] ∧ y.before.plans.get? plan.name = none ∧
            y.after.plans.get? plan.name = some plan ∧
            (reader = Plan.levelsOfYaml? → y.action.load y.before = .ok y.after)) ∨
          ∃ e, y.events = [.error e] ∧ y.after.names = y.before.names ∧
            y.after.isEmpty = y.before.isEmpty ∧
            (∀ name, y.after.find name = y.before.find name) ∧
            (reader = Plan.levelsOfYaml? → y.action.load y.before = .error e)) := by
  have holds := holds_of_run run
  refine ⟨fun name plan hget => ?_, by simp [holds.find], fun y hy => ?_⟩
  · rw [holds.get?] at hget
    exact ⟨by simpa using List.find?_some hget, holds.sound plan (List.mem_of_find?_eq_some hget)⟩
  · obtain ⟨pre, post, rfl⟩ := List.append_of_mem hy
    obtain ⟨before, served, -⟩ := run.taken
    have after : y.after.Holds (loaded (pre ++ [y])) :=
      holds_of_run (Run.snoc_iff.2 ⟨before, served, rfl⟩)
    have hsplit : loaded (pre ++ y :: post) = loaded (pre ++ [y]) ++ loaded post := by
      simp [loaded]
    rw [hsplit] at holds
    refine ⟨fun _ _ => after.get?_of_prefix holds, fun _ _ => after.find_of_prefix holds, ?_⟩
    rcases serve_cases served with ⟨plan, hread, hevents, hafter⟩ | ⟨e, hread, hevents, hafter⟩
    · refine .inl ⟨plan, hevents, (Request.readBy_eq_ok hread).1, ?_, ?_⟩
      · rw [hafter, PlanStore.add, Table.get?_insert_self]
      · rintro rfl
        rw [Request.load_eq, hread, hafter]
        rfl
    · rw [hafter]
      refine .inr ⟨e, hevents, rfl, rfl, fun _ => rfl, ?_⟩
      rintro rfl
      rw [Request.load_eq, hread]
      rfl

/-- A plan, a second one of its name, a text that is no map, and a level collected too often. -/
def someLoads : Loads × PlanStore :=
  Run.follow (serve Plan.levelsOfYaml?) ∅
    [.text "p" "inline" "kpi:\n  freq: 1s\n", .text "p" "other" "{}",
      .text "q" "inline" "kpi", .text "r" "inline" "kpi:\n  freq: 0s\n"]

theorem stored_for_good_refusals :
    Run (serve Plan.levelsOfYaml?) ∅ someLoads.1 someLoads.2 ∧
      (someLoads.1.flatMap (·.events)).map (fun answer => answer.toOption.map (·.source)) =
        [some "inline", none, none, none] ∧
      someLoads.2.names = ["p"] ∧
      (∃ plan, someLoads.2.plans.get? "p" = some plan ∧ plan.source = "inline" ∧ plan.Sound) ∧
      ∀ y ∈ someLoads.1, y.events.map (·.toOption.isSome) = [false] →
        ∀ name, y.after.find name = y.before.find name := by
  have hrun : Run (serve Plan.levelsOfYaml?) ∅ someLoads.1 someLoads.2 := Run.of_follow ..
  obtain ⟨hsound, -, hsteps⟩ := stored_for_good hrun
  have hstored : (someLoads.2.plans.get? "p").map (·.source) = some "inline" := by decide +kernel
  obtain ⟨plan, hget, hsource⟩ := Option.map_eq_some_iff.1 hstored
  refine ⟨hrun, by decide +kernel, by decide +kernel,
    ⟨plan, hget, hsource, (hsound "p" plan hget).2⟩, fun y hy hrefused => ?_⟩
  rcases (hsteps y hy).2.2 with ⟨plan, hevents, -⟩ | ⟨e, -, -, -, hfind, -⟩
  · simp [hevents, Except.toOption] at hrefused
  · exact hfind

end PlanStore

end Cadence
