import Cadence.Proofs.Plan.Loading
import Cadence.Proofs.Plan.Sorting
import Mathlib.Data.List.Nodup

/-!
# Plans from files

Files that are loaded in turn load exactly if each of them describes a plan by
itself and no two of the plans have one name.  The store then holds just these
plans, and finds each of them under its name.
-/

namespace Cadence

theorem fileStem?_ne_empty (path : String) : fileStem? path ≠ some "" := by
  unfold fileStem?
  extract_lets names names'
  have hnames : ∀ n ∈ names', n ≠ "" := by
    intro n hn
    have hmem : n ∈ names := by
      simp only [names'] at hn
      split at hn
      · exact (List.mem_filter.1 hn).1
      · exact hn
    simpa using (List.mem_filter.1 hmem).2
  split
  · simp
  · simp
  · simp
  · next name _ _ hlast =>
      dsimp only
      split
      · have := hnames name (List.mem_of_getLast? hlast)
        simpa using this
      · next hbehind => simpa using hbehind

theorem FileTree.read_empty (tree : FileTree) (text : String) : tree.read "" ≠ .ok text := by
  unfold read
  cases "".any (· = '\x00') <;> simp [bind, Except.bind, throw, throwThe, MonadExceptOf.throw]

namespace PlanStore

/-- The plan that a file describes by itself. -/
def readFile (tree : FileTree) (path : String) : Except PlanError Plan :=
  match tree.read path with
  | .error e => .error (.unreadable path e.message)
  | .ok text => empty.read ((fileStem? path).getD path) path text

variable {store store' : PlanStore} {plans : List Plan} {plan : Plan} {tree : FileTree}
  {name source text path : String}

theorem read_eq_ok_iff :
    store.read name source text = .ok plan ↔
      store.plans.get? name = none ∧ empty.read name source text = .ok plan := by
  cases hfree : store.plans.get? name with
  | some existing => simp [read, hfree, bind, Except.bind]
  | none =>
      have hempty : (empty : PlanStore).plans.get? name = none := rfl
      simp [read, hfree, hempty]

theorem read_of_levels {levels : Table String Level} (hfree : store.plans.get? name = none)
    (hlevels : Plan.levelsOfYaml? text = some levels)
    (hvalid : (Plan.ofLevels name source levels).validate = .ok ()) :
    store.read name source text = .ok (.ofLevels name source levels) := by
  simp [read, hfree, hlevels, hvalid, bind, Except.bind, pure, Except.pure]

theorem read_empty_eq_ok (h : empty.read name source text = .ok plan) :
    plan.name = name ∧ plan.Sound := by
  rw [← readBy_levelsOfYaml?] at h
  exact (readBy_eq_ok h).2

theorem readFile_eq_ok (h : readFile tree path = .ok plan) : plan.name ≠ "" ∧ plan.Sound := by
  unfold readFile at h
  split at h
  · contradiction
  · next text hread =>
      obtain ⟨hname, sound⟩ := read_empty_eq_ok h
      refine ⟨?_, sound⟩
      rw [hname]
      cases hstem : fileStem? path with
      | some stem =>
          rintro rfl
          exact fileStem?_ne_empty path hstem
      | none =>
          rintro rfl
          exact tree.read_empty text hread

theorem loadFile_eq_ok_iff :
    (store.loadFile tree path).map (·.2) = .ok store' ↔
      ∃ plan, readFile tree path = .ok plan ∧ store.plans.get? plan.name = none ∧
        store' = store.add plan := by
  have hload := Request.load_eq store (.file tree path)
  rw [Request.load] at hload
  rw [hload, Request.readBy, readFile]
  cases tree.read path with
  | error e => simp [Except.map]
  | ok text =>
      simp only [readBy_levelsOfYaml?]
      constructor
      · intro h
        cases hread : store.read ((fileStem? path).getD path) path text with
        | error e => simp [hread, Except.map] at h
        | ok plan =>
            obtain ⟨hfree, halone⟩ := read_eq_ok_iff.1 hread
            rw [hread] at h
            exact ⟨plan, halone, (read_empty_eq_ok halone).1 ▸ hfree, (Except.ok.inj h).symm⟩
      · rintro ⟨plan, halone, hfree, rfl⟩
        rw [read_eq_ok_iff.2 ⟨(read_empty_eq_ok halone).1 ▸ hfree, halone⟩]
        rfl

/-- The plan that needs no files. -/
def builtinPlan : Plan :=
  .ofLevels defaultName "builtin" ((Plan.levelsOfYaml? defaultText).getD ∅)

set_option maxRecDepth 8000 in
theorem levels_defaultText :
    (Plan.levelsOfYaml? defaultText).any (fun levels =>
      let plan := Plan.ofLevels defaultName "builtin" levels
      decide ((∀ level ∈ plan.levels.values,
          0 < Plan.seconds plan.name level ∧ Plan.badMetric? level = none) ∧
        plan.levels.values.Pairwise
          (fun a b => Plan.seconds plan.name a ≠ Plan.seconds plan.name b))) := by
  unfold Plan.levelsOfYaml? Yaml.parse? defaultText
  -- The long literal stands for this list of characters; decoding it would take too long.
  conv =>
    pattern String.toList _
    change String.toList (String.ofList _)
    rw [String.toList_ofList]
  decide +kernel

theorem read_defaultText : empty.read defaultName "builtin" defaultText = .ok builtinPlan := by
  obtain ⟨levels, hlevels, hsound⟩ := (Option.any_eq_true _ _).1 levels_defaultText
  have hvalid : (Plan.ofLevels defaultName "builtin" levels).validate = .ok () :=
    Plan.validate_eq_ok_iff.2 (of_decide_eq_true hsound)
  rw [builtinPlan, hlevels]
  exact read_of_levels rfl hlevels hvalid

theorem sound_builtinPlan : builtinPlan.name = defaultName ∧ builtinPlan.Sound :=
  read_empty_eq_ok read_defaultText

theorem withDefault_eq_ok_iff :
    store.withDefault = .ok store' ↔
      store.plans.get? defaultName = none ∧ store' = store.add builtinPlan := by
  rw [withDefault, load]
  constructor
  · intro h
    cases hread : store.read defaultName "builtin" defaultText with
    | error e => simp [hread, Except.map] at h
    | ok plan =>
        obtain ⟨hfree, halone⟩ := read_eq_ok_iff.1 hread
        obtain rfl := Except.ok.inj (halone.symm.trans read_defaultText)
        rw [hread] at h
        exact ⟨hfree, (Except.ok.inj h).symm⟩
  · rintro ⟨hfree, rfl⟩
    rw [read_eq_ok_iff.2 ⟨hfree, read_defaultText⟩]
    rfl

/-- A store that holds these plans and no two of one name. -/
structure Keeps (store : PlanStore) (plans : List Plan) : Prop extends Holds store plans where
  distinct : (plans.map (·.name)).Nodup

theorem keeps_empty : empty.Keeps [] := ⟨holds_empty, by simp⟩

theorem Holds.get?_eq_none_iff (h : store.Holds plans) :
    store.plans.get? name = none ↔ name ∉ plans.map (·.name) := by
  rw [h.get?, List.find?_eq_none]
  simp

theorem Keeps.add (h : store.Keeps plans) (hfree : plan.name ∉ plans.map (·.name))
    (sound : plan.Sound) : (store.add plan).Keeps (plans ++ [plan]) where
  toHolds := h.toHolds.add (h.get?_eq_none_iff.2 hfree) sound
  distinct := by
    rw [List.map_append, List.nodup_append]
    refine ⟨h.distinct, by simp, fun a ha b hb => ?_⟩
    obtain rfl : b = plan.name := by simpa using hb
    rintro rfl
    exact hfree ha

theorem free_of_distinct {more : List Plan}
    (distinct : ((plans ++ plan :: more).map (·.name)).Nodup) :
    plan.name ∉ plans.map (·.name) := by
  rw [List.map_append, List.map_cons] at distinct
  intro hmem
  exact (List.nodup_append.1 distinct).2.2 _ hmem _ List.mem_cons_self rfl

theorem Keeps.addAll {more : List Plan} (h : store.Keeps plans)
    (distinct : ((plans ++ more).map (·.name)).Nodup) (sound : ∀ plan ∈ more, plan.Sound) :
    (more.foldl PlanStore.add store).Keeps (plans ++ more) := by
  induction more generalizing store plans with
  | nil => simpa using h
  | cons plan rest ih =>
      obtain ⟨hplan, hrest⟩ := List.forall_mem_cons.1 sound
      have hadded := h.add (free_of_distinct distinct) hplan
      simpa using ih hadded (by simpa using distinct) hrest

abbrev Describe (tree : FileTree) : List String → List Plan → Prop :=
  List.Forall₂ (fun path plan => readFile tree path = .ok plan)

theorem Describe.sound {paths : List String} (h : Describe tree paths plans) :
    ∀ plan ∈ plans, plan.name ≠ "" ∧ plan.Sound := by
  induction h with
  | nil => simp
  | cons hread _ ih => exact List.forall_mem_cons.2 ⟨readFile_eq_ok hread, ih⟩

/-- Files load in turn exactly if each describes a plan of a name that is still free. -/
theorem Keeps.loadFiles_eq_ok_iff (h : store.Keeps plans) {paths : List String} :
    store.loadFiles tree paths = .ok store' ↔
      ∃ more, Describe tree paths more ∧ ((plans ++ more).map (·.name)).Nodup ∧
        store' = more.foldl PlanStore.add store := by
  induction paths generalizing store plans with
  | nil =>
      constructor
      · intro hload
        obtain rfl := Except.ok.inj hload
        exact ⟨[], .nil, by simpa using h.distinct, rfl⟩
      · rintro ⟨more, hmore, -, rfl⟩
        cases hmore
        rfl
  | cons path paths ih =>
      have hcons : store.loadFiles tree (path :: paths) = .ok store' ↔
          ∃ next, (store.loadFile tree path).map (·.2) = .ok next ∧
            next.loadFiles tree paths = .ok store' := by
        rw [loadFiles, List.foldlM_cons]
        cases (store.loadFile tree path).map (·.2) <;> simp [bind, Except.bind, loadFiles]
      rw [hcons]
      constructor
      · rintro ⟨next, hfile, hrest⟩
        obtain ⟨plan, hread, hfree, rfl⟩ := loadFile_eq_ok_iff.1 hfile
        have hadded := h.add (h.get?_eq_none_iff.1 hfree) (readFile_eq_ok hread).2
        obtain ⟨more, hmore, distinct, rfl⟩ := (ih hadded).1 hrest
        exact ⟨plan :: more, .cons hread hmore, by simpa using distinct, rfl⟩
      · rintro ⟨more, hmore, distinct, rfl⟩
        cases hmore with
        | @cons _ plan _ more hread hrest =>
            have hfree := free_of_distinct distinct
            have hadded := h.add hfree (readFile_eq_ok hread).2
            exact ⟨store.add plan, loadFile_eq_ok_iff.2 ⟨plan, hread,
              h.get?_eq_none_iff.2 hfree, rfl⟩,
              (ih hadded).2 ⟨more, hrest, by simpa using distinct, rfl⟩⟩

namespace Keeps

theorem get?_iff (h : store.Keeps plans) :
    store.plans.get? name = some plan ↔ plan ∈ plans ∧ plan.name = name := by
  rw [h.get?]
  constructor
  · intro hfind
    exact ⟨List.mem_of_find?_eq_some hfind, by simpa using List.find?_some hfind⟩
  · rintro ⟨hmem, rfl⟩
    obtain ⟨other, hother⟩ := Option.isSome_iff_exists.1
      (List.find?_isSome.2 ⟨plan, hmem, by simp⟩ : (plans.find? (·.name = plan.name)).isSome)
    have hsame : other.name = plan.name := by simpa using List.find?_some hother
    rw [hother, List.inj_on_of_nodup_map h.distinct (List.mem_of_find?_eq_some hother) hmem hsame]

/-- The store lists its plans by ascending name. -/
theorem perm_values (h : store.Keeps plans) :
    store.plans.values.Perm plans ∧
      store.plans.values.Pairwise (fun a b => a.name < b.name) ∧
      store.names = store.plans.values.map (·.name) := by
  have hnames : store.names = store.plans.values.map (·.name) := by
    rw [names, Table.keys, Table.values, List.map_map]
    refine List.map_congr_left fun e he => ?_
    exact (h.get?_iff.1 (Table.get?_eq_some_iff.2 he)).2.symm
  have hascending : store.plans.values.Pairwise (fun a b => a.name < b.name) := by
    rw [← List.pairwise_map, ← hnames]
    exact store.plans.pairwise_keys
  have hnodup : store.plans.values.Nodup := by
    refine hascending.imp fun hlt heq => ?_
    exact Key.lt_irrefl _ (heq ▸ hlt)
  refine ⟨(List.perm_ext_iff_of_nodup hnodup (List.Nodup.of_map _ h.distinct)).2 fun plan => ?_,
    hascending, hnames⟩
  rw [Table.mem_values]
  simp [h.get?_iff]

theorem find_of_mem (h : store.Keeps plans) (hplan : plan ∈ plans) (hname : plan.name ≠ "") :
    store.find plan.name = .ok plan := by
  have hget : store.plans.get? plan.name = some plan := h.get?_iff.2 ⟨hplan, rfl⟩
  simp [find, hname, hget, pure, Except.pure, bind, Except.bind]

end Keeps

end PlanStore

end Cadence
