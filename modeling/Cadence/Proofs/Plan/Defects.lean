import Cadence.Proofs.Plan.InPlace
import Mathlib.Data.List.Nodup

/-!
# The first defect of a plan

Validation goes through the levels in key order and stops at the first one that
does not fit those before it.  What makes a plan acceptable is said here without
that order, and so is what is wrong with the first level that does not fit: its
frequency before its clash with an earlier level, and the clash before a metric.
Sorting succeeds for the acceptable plans, reports that defect for all others,
and then has not touched the plan.
-/

namespace Cadence

def MetricLetter (c : Char) : Prop :=
  'A' ≤ c ∧ c ≤ 'Z' ∨ 'a' ≤ c ∧ c ≤ 'z' ∨ '0' ≤ c ∧ c ≤ '9' ∨ c = '_' ∨ c = '-'

def MetricName (name : String) : Prop := ∀ c ∈ name.toList, MetricLetter c

def Domain.WellNamed (domain : Domain) : Prop := ∀ metric ∈ domain.metrics, MetricName metric

namespace Level

/-- The frequency of a level with fractions of a second cut off. -/
def wholeSecs? (level : Level) : Option Nat :=
  (Duration.parse (Text.trim level.freq)).toOption.map (·.secs)

/-- The first metric that is no metric name, domain by domain. -/
def FirstMisnamed (level : Level) (domain : Domain) (metric : String) : Prop :=
  ∃ earlier later names rest, level.collect.values = earlier ++ domain :: later ∧
    (∀ d ∈ earlier, d.WellNamed) ∧ domain.metrics = names ++ metric :: rest ∧
    (∀ name ∈ names, MetricName name) ∧ ¬ MetricName metric

/-- The level can stand behind the levels `before`. -/
def Fits (before : List Level) (level : Level) : Prop :=
  ∃ secs, level.wholeSecs? = some secs ∧ 0 < secs ∧
    (∀ other ∈ before, other.wholeSecs? ≠ some secs) ∧ ∀ d ∈ level.collect.values, d.WellNamed

end Level

/-- What a plan of these levels has to satisfy. -/
structure InOrder (levels : List Level) : Prop where
  frequencies : ∀ level ∈ levels, ∃ secs, level.wholeSecs? = some secs ∧ 1 ≤ secs
  distinct : (levels.map (·.wholeSecs?)).Nodup
  metrics : ∀ level ∈ levels, ∀ domain ∈ level.collect.values, domain.WellNamed

/-- What is wrong in the first place with a level that comes behind the levels `before`. -/
inductive FirstDefect (plan : String) (before : List Level) (level : Level) : PlanError → Prop
  | noDuration {e : Duration.ParseError} : Duration.parse (Text.trim level.freq) = .error e →
      FirstDefect plan before level (.invalidFreq plan level.name level.freq e.message)
  | tooShort : level.wholeSecs? = some 0 →
      FirstDefect plan before level
        (.invalidFreq plan level.name level.freq "must be at least 1s")
  | taken {secs : Nat} {first : Level} : level.wholeSecs? = some secs → 0 < secs →
      first ∈ before → (∀ other ∈ before, other.wholeSecs? = some secs ↔ other = first) →
      FirstDefect plan before level (.duplicateFreq plan first.name level.name secs)
  | misnamed {secs : Nat} {domain : Domain} {metric : String} :
      level.wholeSecs? = some secs → 0 < secs →
      (∀ other ∈ before, other.wholeSecs? ≠ some secs) → level.FirstMisnamed domain metric →
      FirstDefect plan before level (.invalidMetric plan level.name domain.name metric)

namespace Plan

variable {plan : String} {level : Level} {levels before : List Level} {secs : Nat}
  {seen : Table Nat String} {e : PlanError}

/-! ### One level -/

theorem isMetricChar_iff (c : Char) : isMetricChar c = true ↔ MetricLetter c := by
  have hupper : c.isUpper = true ↔ 'A' ≤ c ∧ c ≤ 'Z' := decide_eq_true_iff
  have hlower : c.isLower = true ↔ 'a' ≤ c ∧ c ≤ 'z' :=
    Bool.and_eq_true_iff.trans (and_congr decide_eq_true_iff decide_eq_true_iff)
  have hdigit : c.isDigit = true ↔ '0' ≤ c ∧ c ≤ '9' :=
    Bool.and_eq_true_iff.trans (and_congr decide_eq_true_iff decide_eq_true_iff)
  have halnum : c.isAlphanum = true ↔ (c.isUpper = true ∨ c.isLower = true) ∨ c.isDigit = true :=
    Bool.or_eq_true_iff.trans (or_congr_left Bool.or_eq_true_iff)
  simp only [isMetricChar, MetricLetter, Bool.or_eq_true, decide_eq_true_eq, halnum, hupper, hlower,
    hdigit, or_assoc]

theorem isMetricName_iff (name : String) : isMetricName name = true ↔ MetricName name := by
  simp only [isMetricName, MetricName, List.all_eq_true, isMetricChar_iff]

private theorem find?_eq_none_iff {domain : Domain} :
    domain.metrics.find? (fun m => !isMetricName m) = none ↔ domain.WellNamed := by
  simp only [List.find?_eq_none, Bool.not_eq_true', Bool.not_eq_false, isMetricName_iff,
    Domain.WellNamed]

theorem badMetric?_eq_none_iff :
    badMetric? level = none ↔ ∀ domain ∈ level.collect.values, domain.WellNamed := by
  simp only [badMetric?, List.findSome?_eq_none_iff, Option.map_eq_none_iff, find?_eq_none_iff]

theorem badMetric?_eq_some_iff {domain : Domain} {metric : String} :
    badMetric? level = some (domain, metric) ↔ level.FirstMisnamed domain metric := by
  simp only [badMetric?, List.findSome?_eq_some_iff, Option.map_eq_none_iff, find?_eq_none_iff,
    Option.map_eq_some_iff, List.find?_eq_some_iff_append, Prod.mk.injEq, Bool.not_not]
  constructor
  · rintro ⟨earlier, _, later, hdomains, ⟨_, ⟨hbad, names, rest, hmetrics, hnames⟩, rfl, rfl⟩, hearlier⟩
    refine ⟨earlier, later, names, rest, hdomains, hearlier, hmetrics, fun name hname => ?_, ?_⟩
    · exact (isMetricName_iff name).1 (hnames name hname)
    · rw [← isMetricName_iff]
      simpa using hbad
  · rintro ⟨earlier, later, names, rest, hdomains, hearlier, hmetrics, hnames, hbad⟩
    refine ⟨earlier, domain, later, hdomains,
      ⟨metric, ⟨?_, names, rest, hmetrics, fun name hname => ?_⟩, rfl, rfl⟩, hearlier⟩
    · rw [← isMetricName_iff] at hbad
      simpa using hbad
    · exact (isMetricName_iff name).2 (hnames name hname)

theorem freqSecs_eq_ok_iff :
    freqSecs plan level = .ok secs ↔ level.wholeSecs? = some secs ∧ 0 < secs := by
  unfold freqSecs Level.wholeSecs?
  cases Duration.parse (Text.trim level.freq) with
  | error e => simp [Except.toOption]
  | ok d =>
      simp only [Except.toOption, Option.map_some, Option.some.injEq]
      split
      · simp
        omega
      · simp
        omega

/-- The frequencies seen so far are those of the levels `before`. -/
def Recalls (seen : Table Nat String) (before : List Level) : Prop :=
  ∀ secs, seen.get? secs = (before.find? (·.wholeSecs? = some secs)).map (·.name)

theorem Recalls.eq_none_iff (recalls : Recalls seen before) :
    seen.get? secs = none ↔ ∀ other ∈ before, other.wholeSecs? ≠ some secs := by
  simp [recalls secs]

theorem Recalls.snoc (recalls : Recalls seen before) (hsecs : level.wholeSecs? = some secs)
    (hfree : ∀ other ∈ before, other.wholeSecs? ≠ some secs) :
    Recalls (seen.insert secs level.name) (before ++ [level]) := by
  intro n
  rw [Table.get?_insert, List.find?_append]
  split
  · next heq =>
      subst heq
      have hnone : before.find? (·.wholeSecs? = some n) = none := by simpa using hfree
      simp [hnone, hsecs]
  · next hne =>
      have hnot : level.wholeSecs? ≠ some n := by simpa [hsecs] using Ne.symm hne
      simp [recalls n, hnot]

theorem checkLevels_of_fits (plan : String) (recalls : Recalls seen before)
    (fits : level.Fits before) (rest : List Level) :
    ∃ seen', Recalls seen' (before ++ [level]) ∧
      checkLevels plan seen (level :: rest) = checkLevels plan seen' rest := by
  obtain ⟨secs, hsecs, hpos, hfree, hnamed⟩ := fits
  refine ⟨_, recalls.snoc hsecs hfree, ?_⟩
  have hfreq : freqSecs plan level = .ok secs := freqSecs_eq_ok_iff.2 ⟨hsecs, hpos⟩
  have hseen : seen.get? secs = none := recalls.eq_none_iff.2 hfree
  simp [checkLevels, hfreq, hseen, badMetric?_eq_none_iff.2 hnamed, bind, Except.bind]

theorem checkLevels_of_defect (recalls : Recalls seen before)
    (defect : FirstDefect plan before level e) (rest : List Level) :
    checkLevels plan seen (level :: rest) = .error e := by
  rw [checkLevels]
  cases defect with
  | noDuration hparse => simp [freqSecs, hparse, bind, Except.bind]
  | tooShort hsecs =>
      obtain ⟨d, hparse, hzero⟩ : ∃ d, Duration.parse (Text.trim level.freq) = .ok d ∧ d.secs = 0 := by
        unfold Level.wholeSecs? at hsecs
        cases hparse : Duration.parse (Text.trim level.freq) with
        | error e => simp [hparse, Except.toOption] at hsecs
        | ok d => exact ⟨d, rfl, by simpa [hparse, Except.toOption] using hsecs⟩
      simp [freqSecs, hparse, hzero, bind, Except.bind]
  | @taken secs first hsecs hpos hfirst honly =>
      have hfreq : freqSecs plan level = .ok secs := freqSecs_eq_ok_iff.2 ⟨hsecs, hpos⟩
      have hfind : before.find? (·.wholeSecs? = some secs) = some first := by
        cases hfind : before.find? (·.wholeSecs? = some secs) with
        | none =>
            have hnot := List.find?_eq_none.1 hfind first hfirst
            exact absurd ((honly first hfirst).2 rfl) (by simpa using hnot)
        | some other =>
            have hother : other.wholeSecs? = some secs := by simpa using List.find?_some hfind
            rw [(honly other (List.mem_of_find?_eq_some hfind)).1 hother]
      have hseen : seen.get? secs = some first.name := by rw [recalls secs, hfind, Option.map_some]
      simp only [hfreq, bind, Except.bind, Table.getElem?_eq_get?, hseen]
      rfl
  | @misnamed secs domain metric hsecs hpos hfree hbad =>
      have hfreq : freqSecs plan level = .ok secs := freqSecs_eq_ok_iff.2 ⟨hsecs, hpos⟩
      have hseen : seen.get? secs = none := recalls.eq_none_iff.2 hfree
      simp only [hfreq, bind, Except.bind, Table.getElem?_eq_get?, hseen,
        badMetric?_eq_some_iff.2 hbad]
      rfl

theorem fits_or_defect (inOrder : InOrder before) (plan : String) (level : Level) :
    level.Fits before ∨ ∃ e, FirstDefect plan before level e := by
  cases hparse : Duration.parse (Text.trim level.freq) with
  | error e => exact .inr ⟨_, .noDuration hparse⟩
  | ok d =>
      have hsecs : level.wholeSecs? = some d.secs := by
        simp [Level.wholeSecs?, hparse, Except.toOption]
      rcases Nat.eq_zero_or_pos d.secs with hzero | hpos
      · exact .inr ⟨_, .tooShort (hzero ▸ hsecs)⟩
      · by_cases hfree : ∀ other ∈ before, other.wholeSecs? ≠ some d.secs
        · cases hbad : badMetric? level with
          | none => exact .inl ⟨d.secs, hsecs, hpos, hfree, badMetric?_eq_none_iff.1 hbad⟩
          | some bad =>
              exact .inr ⟨_, .misnamed hsecs hpos hfree (badMetric?_eq_some_iff.1 hbad)⟩
        · simp only [not_forall, not_not] at hfree
          obtain ⟨first, hfirst, hsame⟩ := hfree
          refine .inr ⟨_, .taken hsecs hpos hfirst fun other hother => ⟨fun hother' => ?_, ?_⟩⟩
          · exact List.inj_on_of_nodup_map inOrder.distinct hother hfirst (hother'.trans hsame.symm)
          · rintro rfl
            exact hsame

theorem not_fits_of_defect (defect : FirstDefect plan before level e) :
    ¬ level.Fits before := by
  rintro ⟨secs, hsecs, hpos, hfree, hnamed⟩
  cases defect with
  | noDuration hparse => simp [Level.wholeSecs?, hparse, Except.toOption] at hsecs
  | tooShort hzero => simp [hsecs, Nat.ne_of_gt hpos] at hzero
  | @taken n first hn _ hfirst honly =>
      obtain rfl : secs = n := by simpa [hsecs] using hn
      exact hfree first hfirst ((honly first hfirst).2 rfl)
  | misnamed _ _ _ hbad =>
      have hnone := badMetric?_eq_none_iff.2 hnamed
      simp [badMetric?_eq_some_iff.2 hbad] at hnone

theorem inOrder_snoc_iff :
    InOrder (before ++ [level]) ↔ InOrder before ∧ level.Fits before := by
  constructor
  · rintro ⟨hfrequencies, hdistinct, hmetrics⟩
    rw [List.forall_mem_append, List.forall_mem_singleton] at hfrequencies hmetrics
    rw [List.map_append, List.nodup_append] at hdistinct
    obtain ⟨secs, hsecs, hpos⟩ := hfrequencies.2
    refine ⟨⟨hfrequencies.1, hdistinct.1, hmetrics.1⟩, secs, hsecs, hpos, ?_, hmetrics.2⟩
    intro other hother
    rw [← hsecs]
    exact hdistinct.2.2 _ (List.mem_map_of_mem hother) _ (by simp)
  · rintro ⟨inOrder, secs, hsecs, hpos, hfree, hnamed⟩
    constructor
    · rw [List.forall_mem_append, List.forall_mem_singleton]
      exact ⟨inOrder.frequencies, secs, hsecs, hpos⟩
    · rw [List.map_append, List.nodup_append]
      refine ⟨inOrder.distinct, List.nodup_singleton _, ?_⟩
      simpa [hsecs] using hfree
    · rw [List.forall_mem_append, List.forall_mem_singleton]
      exact ⟨inOrder.metrics, hnamed⟩

theorem inOrder_of_append (h : InOrder (before ++ levels)) : InOrder before where
  frequencies level hlevel := h.frequencies level (List.mem_append_left _ hlevel)
  distinct := by
    have hdistinct := h.distinct
    rw [List.map_append] at hdistinct
    exact (List.nodup_append.1 hdistinct).1
  metrics level hlevel := h.metrics level (List.mem_append_left _ hlevel)

/-! ## All levels -/

theorem checkLevels_eq_ok_iff_inOrder (recalls : Recalls seen before) (inOrder : InOrder before) :
    checkLevels plan seen levels = .ok () ↔ InOrder (before ++ levels) := by
  induction levels generalizing seen before with
  | nil => simpa [checkLevels] using inOrder
  | cons level rest ih =>
      rw [List.append_cons]
      rcases fits_or_defect inOrder plan level with fits | ⟨e, defect⟩
      · obtain ⟨seen', recalls', hnext⟩ := checkLevels_of_fits plan recalls fits rest
        rw [hnext]
        exact ih recalls' (inOrder_snoc_iff.2 ⟨inOrder, fits⟩)
      · rw [checkLevels_of_defect recalls defect]
        refine iff_of_false (by simp) fun h => ?_
        exact absurd (inOrder_snoc_iff.1 (inOrder_of_append h)).2 (not_fits_of_defect defect)

/-- The check fails at the first level that does not fit, with its first defect. -/
theorem checkLevels_eq_error_iff (recalls : Recalls seen before) (inOrder : InOrder before) :
    checkLevels plan seen levels = .error e ↔
      ∃ earlier level later, levels = earlier ++ level :: later ∧
        InOrder (before ++ earlier) ∧ FirstDefect plan (before ++ earlier) level e := by
  induction levels generalizing seen before with
  | nil => simp [checkLevels]
  | cons level rest ih =>
      rcases fits_or_defect inOrder plan level with fits | ⟨e', defect⟩
      · obtain ⟨seen', recalls', hnext⟩ := checkLevels_of_fits plan recalls fits rest
        rw [hnext, ih recalls' (inOrder_snoc_iff.2 ⟨inOrder, fits⟩)]
        constructor
        · rintro ⟨earlier, bad, later, rfl, hbefore, hdefect⟩
          rw [← List.append_cons] at hbefore hdefect
          exact ⟨level :: earlier, bad, later, rfl, hbefore, hdefect⟩
        · rintro ⟨earlier, bad, later, hsplit, hbefore, hdefect⟩
          cases earlier with
          | nil =>
              obtain ⟨rfl, rfl⟩ := List.cons.inj hsplit
              rw [List.append_nil] at hdefect
              exact absurd fits (not_fits_of_defect hdefect)
          | cons first earlier =>
              obtain ⟨rfl, rfl⟩ := List.cons.inj hsplit
              rw [List.append_cons] at hbefore hdefect
              exact ⟨earlier, bad, later, rfl, hbefore, hdefect⟩
      · rw [checkLevels_of_defect recalls defect]
        constructor
        · intro heq
          obtain rfl := Except.error.inj heq
          exact ⟨[], level, rest, rfl, by simpa using inOrder, by simpa using defect⟩
        · rintro ⟨earlier, bad, later, hsplit, hbefore, hdefect⟩
          cases earlier with
          | nil =>
              obtain ⟨rfl, rfl⟩ := List.cons.inj hsplit
              rw [List.append_nil] at hdefect
              rw [← checkLevels_of_defect recalls defect rest, checkLevels_of_defect recalls hdefect]
          | cons first earlier =>
              obtain ⟨rfl, rfl⟩ := List.cons.inj hsplit
              rw [List.append_cons] at hbefore
              exact absurd (inOrder_snoc_iff.1 (inOrder_of_append hbefore)).2 (not_fits_of_defect defect)

theorem inOrder_nil : InOrder [] := ⟨by simp, by simp, by simp⟩

theorem validate_eq_ok_iff_inOrder {plan : Plan} :
    plan.validate = .ok () ↔ InOrder plan.levels.values :=
  checkLevels_eq_ok_iff_inOrder (fun _ => rfl) inOrder_nil

theorem validate_eq_error_iff {plan : Plan} :
    plan.validate = .error e ↔
      ∃ earlier level later, plan.levels.values = earlier ++ level :: later ∧
        InOrder earlier ∧ FirstDefect plan.name earlier level e :=
  checkLevels_eq_error_iff (fun _ => rfl) inOrder_nil

theorem sort_eq_error_iff {plan : Plan} : plan.sort = .error e ↔ plan.validate = .error e := by
  rw [sort_eq]
  cases plan.validate <;> simp [Except.map]

/-- Sorting succeeds exactly if the levels are in order, and then lists each of them once with its
whole seconds, in ascending order.  Otherwise it reports the first defect of the first level that is
not in order, and the plan that is sorted in place is as it was. -/
theorem sorts_exactly_in_order {plan : Plan} (named : plan.NamedByKey) :
    ((∃ order sorted, plan.sort = .ok (order, sorted)) ↔ InOrder plan.levels.values) ∧
      (∀ order sorted, plan.sort = .ok (order, sorted) →
        sortInPlace.run plan = .ok order sorted ∧
        order.Pairwise (fun a b => a.freq < b.freq) ∧
        (order.map (·.name)).Perm plan.levels.keys ∧
        ∀ l ∈ order, (plan.levels.get? l.name).bind (·.wholeSecs?) = some l.freq) ∧
      (∀ e, plan.sort = .error e ↔
        ∃ earlier level later, plan.levels.values = earlier ++ level :: later ∧
          InOrder earlier ∧ FirstDefect plan.name earlier level e) ∧
      ∀ e, plan.sort = .error e → sortInPlace.run plan = .error (.refused e) plan := by
  have hrun := run_sortInPlace_of_named (.inr named)
  refine ⟨?_, fun order sorted hsort => ?_, fun e => ?_, fun e hsort => ?_⟩
  · rw [← validate_eq_ok_iff_inOrder]
    constructor
    · rintro ⟨order, sorted, hsort⟩
      exact (sort_eq_ok_iff.1 hsort).1
    · intro valid
      exact ⟨_, _, sort_eq_ok_iff.2 ⟨valid, rfl, rfl⟩⟩
  · rw [hsort] at hrun
    obtain ⟨valid, rfl, -⟩ := sort_eq_ok_iff.1 hsort
    refine ⟨hrun, pairwise_order valid, perm_order_names named, fun l hl => ?_⟩
    obtain ⟨level, hlevel, hfreq⟩ := (mem_order named valid).1 hl
    rw [hlevel, Option.bind_some]
    exact (freqSecs_eq_ok_iff.1 hfreq).1
  · rw [sort_eq_error_iff, validate_eq_error_iff]
  · rw [hrun, hsort]

/-- The second level clashes with the first one and has a misnamed metric, and the third one has no
frequency. -/
def clashing : Plan :=
  .ofLevels "clash" "inline" (.ofList [
    ("a", { freq := "1s" }),
    ("b", { freq := " 1500ms", collect := .ofList [("cpu", { metrics := ["user time"] })] }),
    ("c", { freq := "often" })])

theorem sorts_exactly_in_order_clash :
    clashing.NamedByKey ∧
      clashing.sort = .error (.duplicateFreq "clash" "a" "b" 1) ∧
      sortInPlace.run clashing = .error (.refused (.duplicateFreq "clash" "a" "b" 1)) clashing := by
  have named : clashing.NamedByKey := by decide +kernel
  obtain ⟨-, -, herror, huntouched⟩ := sorts_exactly_in_order named
  have hsplit : clashing.levels.values =
      [⟨"a", "1s", ∅⟩] ++
        ⟨"b", " 1500ms", .ofList [("cpu", ⟨"cpu", ∅, ["user time"], ∅⟩)]⟩ ::
          [⟨"c", "often", ∅⟩] := by decide +kernel
  have hfirst : (⟨"a", "1s", ∅⟩ : Level).wholeSecs? = some 1 := by decide +kernel
  have hbefore : InOrder [⟨"a", "1s", ∅⟩] :=
    inOrder_snoc_iff.2 ⟨inOrder_nil, 1, hfirst, by decide, by simp,
      badMetric?_eq_none_iff.1 (by decide +kernel)⟩
  have hsort : clashing.sort = .error (.duplicateFreq "clash" "a" "b" 1) := by
    refine (herror _).2 ⟨_, _, _, hsplit, hbefore, ?_⟩
    exact @FirstDefect.taken _ _ _ 1 ⟨"a", "1s", ∅⟩ (by decide +kernel) (by decide)
      List.mem_cons_self (by simp [hfirst])
  exact ⟨named, hsort, huntouched _ hsort⟩

end Plan

end Cadence
