import Cadence.Command.Plans
import Cadence.Proofs.Plan.Accumulating
import Cadence.Proofs.Plan.Files

/-!
# Checking plan files

Loading, sorting and printing come one after the other, and the first plans are
printed before the last one is sorted.  Still the command prints all or nothing:
sorting fails only for a plan that is not valid, and loading has kept those out.
-/

namespace Cadence.PlansCommand

open PlanStore (Describe builtinPlan defaultName)

variable {tree : FileTree} {args files : List String} {builtin : Bool} {store : PlanStore}
  {plan : Plan} {plans : List Plan}

/-! ### The arguments -/

theorem parseArgs_eq_check {before : List String} {asked : Bool}
    (h : parseArgs before asked args = .ok (.check files builtin)) :
    files = before ++ args.filter (fun arg => !arg.startsWith "--") ∧
      builtin = (asked || args.contains "--builtin") := by
  induction args generalizing before asked with
  | nil =>
      rw [parseArgs] at h
      split at h
      · contradiction
      · cases h
        simp
  | cons arg rest ih =>
      rw [parseArgs] at h
      split at h
      · cases h
      split at h
      · cases h
      split at h
      · next harg =>
          obtain ⟨rfl, rfl⟩ := ih h
          have hdashes : "--builtin".startsWith "--" := by simp [String.startsWith_string_iff]
          simp [harg, hdashes]
      · next harg =>
          split at h
          · contradiction
          · next hdashes =>
              obtain ⟨rfl, rfl⟩ := ih h
              simp [hdashes, Ne.symm harg]

/-! ### Loading -/

/-- The files describe these plans, all of different names, and the builtin one is free if asked
for. -/
structure Loads (tree : FileTree) (files : List String) (builtin : Bool) (plans : List Plan) :
    Prop where
  described : Describe tree files plans
  distinct : (plans.map (·.name)).Nodup
  free : builtin = true → defaultName ∉ plans.map (·.name)

def withBuiltin (builtin : Bool) (plans : List Plan) : List Plan :=
  plans ++ if builtin then [builtinPlan] else []

theorem loadAll_eq_ok_iff :
    loadAll tree files builtin = .ok store ↔
      ∃ plans, Loads tree files builtin plans ∧
        store = (withBuiltin builtin plans).foldl PlanStore.add .empty := by
  have hfiles {read : PlanStore} : PlanStore.empty.loadFiles tree files = .ok read ↔
      ∃ plans, Describe tree files plans ∧ (plans.map (·.name)).Nodup ∧
        read = plans.foldl PlanStore.add .empty := PlanStore.keeps_empty.loadFiles_eq_ok_iff
  have keeps {plans : List Plan} (described : Describe tree files plans)
      (distinct : (plans.map (·.name)).Nodup) :
      (plans.foldl PlanStore.add .empty).Keeps plans :=
    PlanStore.keeps_empty.addAll distinct fun plan hplan => (described.sound plan hplan).2
  cases builtin with
  | false =>
      have hload : loadAll tree files false = PlanStore.empty.loadFiles tree files := by
        rw [loadAll]
        cases PlanStore.empty.loadFiles tree files <;> rfl
      simp only [hload, hfiles, withBuiltin, Bool.false_eq_true, if_false, List.append_nil]
      constructor
      · rintro ⟨plans, described, distinct, rfl⟩
        exact ⟨plans, ⟨described, distinct, by simp⟩, rfl⟩
      · rintro ⟨plans, loads, rfl⟩
        exact ⟨plans, loads.described, loads.distinct, rfl⟩
  | true =>
      have hload : loadAll tree files true = .ok store ↔
          ∃ read, PlanStore.empty.loadFiles tree files = .ok read ∧
            read.withDefault = .ok store := by
        rw [loadAll]
        cases PlanStore.empty.loadFiles tree files <;> simp [bind, Except.bind]
      simp only [hload, hfiles, PlanStore.withDefault_eq_ok_iff, withBuiltin, if_true,
        List.foldl_append, List.foldl_cons, List.foldl_nil]
      constructor
      · rintro ⟨read, ⟨plans, described, distinct, rfl⟩, hfree, rfl⟩
        rw [(keeps described distinct).get?_eq_none_iff] at hfree
        exact ⟨plans, ⟨described, distinct, fun _ => hfree⟩, rfl⟩
      · rintro ⟨plans, loads, rfl⟩
        have hfree := (keeps loads.described loads.distinct).get?_eq_none_iff.2 (loads.free rfl)
        exact ⟨_, ⟨plans, loads.described, loads.distinct, rfl⟩, hfree, rfl⟩

theorem Loads.sound (h : Loads tree files builtin plans) :
    ∀ plan ∈ withBuiltin builtin plans, plan.name ≠ "" ∧ plan.Sound := by
  intro plan hplan
  rcases List.mem_append.1 hplan with hplan | hplan
  · exact h.described.sound plan hplan
  · obtain ⟨-, rfl⟩ : builtin = true ∧ plan = builtinPlan := by simpa using hplan
    obtain ⟨hname, sound⟩ := PlanStore.sound_builtinPlan
    exact ⟨by simp [hname, defaultName], sound⟩

theorem Loads.keeps (h : Loads tree files builtin plans) :
    ((withBuiltin builtin plans).foldl PlanStore.add .empty).Keeps (withBuiltin builtin plans) := by
  refine PlanStore.keeps_empty.addAll ?_ fun plan hplan => (h.sound plan hplan).2
  cases builtin with
  | false => simpa [withBuiltin] using h.distinct
  | true =>
      have hname := PlanStore.sound_builtinPlan.1
      simpa [withBuiltin, List.nodup_append, hname, h.distinct] using h.free rfl

/-! ### Printing -/

/-- What a line says of the metrics of a domain; without a name it stands for all of them. -/
inductive Lists : List String → String → Prop where
  | all : Lists [] "(all)"
  | named (metric : String) (rest : List String) :
      Lists (metric :: rest) (", ".intercalate (metric :: rest))

/-- The line of a domain in the block of its level. -/
def DomainLine (entry : String × Domain) (line : String) : Prop :=
  ∃ text, Lists entry.2.metrics text ∧ line = s!"    {entry.1}: {text}"

/-- The block of a level: its name and period, then a line for each domain. -/
def LevelBlock (sorted : Plan) (l : SortedLevel) (block : List String) : Prop :=
  ∃ level lines, sorted.levels.get? l.name = some level ∧
    List.Forall₂ DomainLine level.collect.toList lines ∧
    block = s!"  {l.name} every {l.freq}s" :: lines

/-- The lines show a plan after inheritance: each level once, the finest first, with the domains
that it collects and their metrics. -/
structure Shows (plan : Plan) (order : List SortedLevel) (sorted : Plan) (lines : List String) :
    Prop where
  sort : plan.sort = .ok (order, sorted)
  inherits : ∀ domain, plan.Accumulates sorted order domain
  ascending : order.Pairwise (fun a b => a.freq < b.freq)
  once : (order.map (·.name)).Perm plan.levels.keys
  period : ∀ l ∈ order, plan.period? l.name = some l.freq
  text : ∃ blocks, List.Forall₂ (LevelBlock sorted) order blocks ∧
    lines = s!"[plan] {plan.name} ({plan.source})" :: blocks.flatten

theorem lists_metricsText (metrics : List String) : Lists metrics (metricsText metrics) := by
  cases metrics with
  | nil => exact .all
  | cons metric rest => exact .named metric rest

theorem levelBlock {sorted : Plan} {l : SortedLevel} {level : Level}
    (h : sorted.levels.get? l.name = some level) :
    LevelBlock sorted l (s!"  {l.name} every {l.freq}s" ::
      level.collect.toList.map (fun (domain, d) => s!"    {domain}: {metricsText d.metrics}")) := by
  refine ⟨level, _, h, ?_, rfl⟩
  rw [List.forall₂_map_right_iff, List.forall₂_same]
  exact fun entry _ => ⟨_, lists_metricsText _, rfl⟩

theorem planLines_eq {order : List SortedLevel} {sorted : Plan}
    (h : ∀ l ∈ order, ∃ level, sorted.levels.get? l.name = some level) :
    ∃ blocks, List.Forall₂ (LevelBlock sorted) order blocks ∧
      planLines order sorted = s!"[plan] {sorted.name} ({sorted.source})" :: blocks.flatten := by
  induction order with
  | nil => exact ⟨[], .nil, rfl⟩
  | cons l rest ih =>
      obtain ⟨⟨level, hlevel⟩, hrest⟩ := List.forall_mem_cons.1 h
      obtain ⟨blocks, hblocks, hlines⟩ := ih hrest
      refine ⟨_ :: blocks, .cons (levelBlock hlevel) hblocks, ?_⟩
      rw [planLines, List.cons.injEq] at hlines
      rw [planLines, List.flatMap_cons, hlines.2, Table.getElem?_eq_get?, hlevel]
      rfl

theorem Shows.of_sound (sound : plan.Sound) :
    Shows plan plan.order plan.inheriting (planLines plan.order plan.inheriting) := by
  have hsort : plan.sort = .ok (plan.order, plan.inheriting) :=
    Plan.sort_eq_ok_iff.2 ⟨sound.valid, rfl, rfl⟩
  have hnames := Plan.perm_order_names sound.levels
  have hlevels : ∀ l ∈ plan.order, ∃ level, plan.inheriting.levels.get? l.name = some level := by
    intro l hl
    rw [← Table.mem_iff, ← Table.mem_keys, Plan.keys_of_sort hsort, ← hnames.mem_iff]
    exact List.mem_map_of_mem hl
  exact {
    sort := hsort
    inherits := Plan.accumulates_of_sort sound.levels sound.asWritten hsort
    ascending := Plan.pairwise_order sound.valid
    once := hnames
    period := fun l hl => (Plan.mem_order_iff_period? sound.levels sound.valid).1 hl
    text := by
      rw [← Plan.name_of_sort hsort, ← Plan.source_of_sort hsort]
      exact planLines_eq hlevels }

theorem printPlans_eq (h : ∀ plan ∈ plans, store.find plan.name = .ok plan ∧ plan.Sound)
    (printed : List String) :
    printPlans store printed (plans.map (·.name)) =
      (printed ++ plans.flatMap (fun plan => planLines plan.order plan.inheriting), none) := by
  induction plans generalizing printed with
  | nil => simp [printPlans]
  | cons plan rest ih =>
      obtain ⟨⟨hfind, sound⟩, hrest⟩ := List.forall_mem_cons.1 h
      have hsort : plan.sort = .ok (plan.order, plan.inheriting) :=
        Plan.sort_eq_ok_iff.2 ⟨sound.valid, rfl, rfl⟩
      rw [List.map_cons, printPlans, hfind, Except.bind, hsort]
      dsimp only
      rw [ih hrest, List.flatMap_cons, List.append_assoc]

/-- The output is that of these plans, in the order of their names, and each line has its end. -/
def Prints (plans : List Plan) (output : String) : Prop :=
  ∃ printed blocks, printed.Perm plans ∧ printed.Pairwise (fun a b => a.name < b.name) ∧
    List.Forall₂ (fun plan lines => ∃ order sorted, Shows plan order sorted lines) printed blocks ∧
    output = String.join (blocks.flatten.map (fun line => line ++ "\n"))

theorem check_of_loads (h : Loads tree files builtin plans) :
    (check tree files builtin).code = 0 ∧
      Prints (withBuiltin builtin plans) (check tree files builtin).stdout := by
  have hload := loadAll_eq_ok_iff.2 ⟨plans, h, rfl⟩
  have keeps := h.keeps
  generalize (withBuiltin builtin plans).foldl PlanStore.add .empty = store at hload keeps
  obtain ⟨hperm, ascending, hnames⟩ := keeps.perm_values
  have hfound : ∀ plan ∈ store.plans.values, store.find plan.name = .ok plan ∧ plan.Sound := by
    intro plan hplan
    have hmem := hperm.mem_iff.1 hplan
    exact ⟨keeps.find_of_mem hmem (h.sound plan hmem).1, (h.sound plan hmem).2⟩
  have hprint := printPlans_eq hfound []
  rw [← hnames, List.nil_append] at hprint
  rw [check, hload]
  dsimp only
  rw [hprint]
  refine ⟨rfl, store.plans.values,
    store.plans.values.map (fun plan => planLines plan.order plan.inheriting), hperm, ascending, ?_,
    by rw [List.flatMap_def]; rfl⟩
  rw [List.forall₂_map_right_iff, List.forall₂_same]
  exact fun plan hplan => ⟨_, _, .of_sound (hfound plan hplan).2⟩

theorem check_of_error {e : PlanError} (h : loadAll tree files builtin = .error e) :
    (check tree files builtin).code = 1 ∧ (check tree files builtin).stdout = "" := by
  rw [check, h]
  exact ⟨rfl, rfl⟩

theorem check_code_eq_zero_iff :
    (check tree files builtin).code = 0 ↔ ∃ plans, Loads tree files builtin plans := by
  constructor
  · intro hcode
    cases hload : loadAll tree files builtin with
    | ok store =>
        obtain ⟨plans, loads, -⟩ := loadAll_eq_ok_iff.1 hload
        exact ⟨plans, loads⟩
    | error e => simp [(check_of_error hload).1] at hcode
  · rintro ⟨plans, loads⟩
    exact (check_of_loads loads).1

theorem stdout_check (h : (check tree files builtin).code ≠ 0) :
    (check tree files builtin).stdout = "" := by
  cases hload : loadAll tree files builtin with
  | error e => exact (check_of_error hload).2
  | ok store =>
      obtain ⟨plans, loads, -⟩ := loadAll_eq_ok_iff.1 hload
      exact absurd (check_of_loads loads).1 h

/-- Nothing is printed with a code other than zero.  Files are checked with the code zero exactly if
all of them load, and then each plan is printed once. -/
theorem prints_all_or_nothing (tree : FileTree) (args : List String) :
    ((run tree args).code ≠ 0 → (run tree args).stdout = "") ∧
      ∀ files builtin, parseArgs [] false args = .ok (.check files builtin) →
        files = args.filter (fun arg => !arg.startsWith "--") ∧
        builtin = args.contains "--builtin" ∧
        ((run tree args).code = 0 ↔ ∃ plans, Loads tree files builtin plans) ∧
        ∀ plans, Loads tree files builtin plans →
          Prints (withBuiltin builtin plans) (run tree args).stdout := by
  refine ⟨fun hcode => ?_, fun files builtin hargs => ?_⟩
  · cases hargs : parseArgs [] false args with
    | error e => simp only [run, hargs, failed, unlines, List.map_nil, String.join_nil]
    | ok action =>
        cases action with
        | help => simp [run, hargs] at hcode
        | listDomains => simp [run, hargs] at hcode
        | check files builtin =>
            simp only [run, hargs] at hcode ⊢
            exact stdout_check hcode
  · obtain ⟨hfiles, hbuiltin⟩ := parseArgs_eq_check hargs
    have hrun : run tree args = check tree files builtin := by simp [run, hargs]
    rw [hrun]
    exact ⟨by simpa using hfiles, by simpa using hbuiltin, check_code_eq_zero_iff,
      fun plans loads => (check_of_loads loads).2⟩

/-- One file, of a plan with two levels. -/
def sheet : String :=
  "a:\n  freq: 1s\n  collect:\n    cpu: {metrics: [u]}\n    io: {}\n" ++
  "b:\n  freq: 9s\n  collect:\n    cpu: {metrics: [v]}\n"

def sheetTree : FileTree := { files := .ofList [("p.yaml", sheet.toUTF8)] }

def sheetPlan : Plan where
  name := "p"
  source := "p.yaml"
  inherited := false
  levels := .ofList [
    ("a", {
      name := "a"
      freq := "1s"
      collect := .ofList [("cpu", { name := "cpu", metrics := ["u"] }), ("io", { name := "io" })] }),
    ("b", {
      name := "b"
      freq := "9s"
      collect := .ofList [("cpu", { name := "cpu", metrics := ["v"] })] })]

/-- What is printed of the sheet. -/
def sheetPrinted : String :=
  "[plan] p (p.yaml)\n  a every 1s\n    cpu: u\n    io: (all)\n" ++
  "  b every 9s\n    cpu: v, u\n    io: (all)\n"

theorem readFile_sheet : PlanStore.readFile sheetTree "p.yaml" = .ok sheetPlan := by
  have hrelative : "p.yaml".startsWith "/" = false := by
    simp [← Bool.not_eq_true, String.startsWith_string_iff]
  have hsplit : FileTree.splitPath "p.yaml" = ["p.yaml"] := by decide +kernel
  have hstem : fileStem? "p.yaml" = some "p" := by
    rw [fileStem?, hrelative, hsplit]
    decide +kernel
  have htext : sheetTree.read "p.yaml" = .ok sheet := by
    have hnul : "p.yaml".any (· = '\x00') = false := String.contains_prop_eq.trans (by decide)
    have hsize : "p.yaml".utf8ByteSize = 6 := by decide +kernel
    have hstart : FileTree.start "p.yaml" = [] := by rw [FileTree.start, hrelative]; rfl
    have hplace : FileTree.placeOf "p.yaml" = ["p.yaml"] := by
      rw [FileTree.placeOf, hstart, hsplit]
      decide +kernel
    have hfiles : sheetTree.files.toList = [("p.yaml", sheet.toUTF8)] := rfl
    have hfollow : sheetTree.follow [] ["p.yaml"] = .ok (.file sheet.toUTF8) := by
      simp [FileTree.follow, FileTree.entry?, hfiles, hplace, hsize]
    have hdecode : String.fromUTF8? sheet.toUTF8 = some sheet := dif_pos sheet.isValidUTF8
    rw [FileTree.read, hnul, hstart, hsplit, hfollow]
    simp only [hsize, bind, Except.bind, hdecode]
    rfl
  have hread : (PlanStore.empty.read "p" "p.yaml" sheet).toOption = some sheetPlan := by
    decide +kernel
  rw [PlanStore.readFile, htext, hstem]
  cases hplan : PlanStore.empty.read "p" "p.yaml" sheet with
  | error e => simp [hplan, Except.toOption] at hread
  | ok plan =>
      rw [hplan] at hread
      exact hplan.trans (congrArg Except.ok (Option.some.inj hread))

/-- The sheet is printed to the letter, and with the builtin plan if asked for; given twice it is
not printed at all. -/
theorem prints_all_or_nothing_sheet :
    (run sheetTree ["p.yaml"]).code = 0 ∧
      Prints [sheetPlan] (run sheetTree ["p.yaml"]).stdout ∧
      (run sheetTree ["p.yaml"]).stdout = sheetPrinted ∧
      (run sheetTree ["p.yaml", "--builtin"]).code = 0 ∧
      Prints [sheetPlan, builtinPlan] (run sheetTree ["p.yaml", "--builtin"]).stdout ∧
      (run sheetTree ["p.yaml", "p.yaml"]).code ≠ 0 ∧
      (run sheetTree ["p.yaml", "p.yaml"]).stdout = "" := by
  have halone : parseArgs [] false ["p.yaml"] = .ok (.check ["p.yaml"] false) := by
    simp [parseArgs, String.startsWith_string_iff]
  have hbuiltin : parseArgs [] false ["p.yaml", "--builtin"] = .ok (.check ["p.yaml"] true) := by
    simp [parseArgs, String.startsWith_string_iff]
  have htwice : parseArgs [] false ["p.yaml", "p.yaml"] =
      .ok (.check ["p.yaml", "p.yaml"] false) := by
    simp [parseArgs, String.startsWith_string_iff]
  have described : Describe sheetTree ["p.yaml"] [sheetPlan] := .cons readFile_sheet .nil
  have hloads : Loads sheetTree ["p.yaml"] false [sheetPlan] := ⟨described, by simp, by simp⟩
  have hloadsBuiltin : Loads sheetTree ["p.yaml"] true [sheetPlan] :=
    ⟨described, by simp, by simp [sheetPlan, defaultName]⟩
  obtain ⟨-, hchecks⟩ := prints_all_or_nothing sheetTree ["p.yaml"]
  obtain ⟨-, -, hcode, hprints⟩ := hchecks _ _ halone
  obtain ⟨-, hchecks⟩ := prints_all_or_nothing sheetTree ["p.yaml", "--builtin"]
  obtain ⟨-, -, hcodeBuiltin, hprintsBuiltin⟩ := hchecks _ _ hbuiltin
  obtain ⟨hsilent, hchecks⟩ := prints_all_or_nothing sheetTree ["p.yaml", "p.yaml"]
  obtain ⟨-, -, hfails, -⟩ := hchecks _ _ htwice
  have htext : (run sheetTree ["p.yaml"]).stdout = sheetPrinted := by
    have hload : loadAll sheetTree ["p.yaml"] false = .ok (PlanStore.empty.add sheetPlan) :=
      loadAll_eq_ok_iff.2 ⟨_, hloads, rfl⟩
    simp only [run, halone, check, hload]
    decide +kernel
  have hclash : (run sheetTree ["p.yaml", "p.yaml"]).code ≠ 0 := by
    rw [Ne, hfails]
    rintro ⟨plans, described, distinct, -⟩
    rw [Describe, List.forall₂_cons_left_iff] at described
    obtain ⟨first, rest, hfirst, described, rfl⟩ := described
    rw [List.forall₂_cons_left_iff] at described
    obtain ⟨second, rest, hsecond, -, rfl⟩ := described
    obtain rfl := Except.ok.inj (hfirst.symm.trans hsecond)
    simp at distinct
  exact ⟨hcode.2 ⟨_, hloads⟩, hprints _ hloads, htext, hcodeBuiltin.2 ⟨_, hloadsBuiltin⟩,
    hprintsBuiltin _ hloadsBuiltin, hclash, hsilent hclash⟩

end Cadence.PlansCommand
