import Cadence.Proofs.Plan.DueLevel

/-!
# What inheritance does to a request for everything

A level that lists no metrics of a domain asks for all of them.  Inheritance
joins lists, so a request for everything lasts only among its like.  Once a level
that is folded in names a metric, the names are all that is asked for.
-/

namespace Cadence

namespace Domain

def Names (entry : Option Domain) (metric : String) : Prop :=
  ∃ x, entry = some x ∧ metric ∈ x.metrics

variable {finer : List (Option Domain)} {own : Option Domain} {metric : String}

theorem names_join {entry : Option Domain} :
    Names (join entry own) metric ↔ Names own metric ∨ Names entry metric := by
  cases entry with
  | none => simp [join, Names]
  | some x => cases own <;> simp [join, Names]

theorem names_absorb :
    Names (absorb finer own) metric ↔ Names own metric ∨ ∃ entry ∈ finer, Names entry metric := by
  induction finer generalizing own with
  | nil => simp [absorb]
  | cons first rest ih =>
      have hfirst : absorb (first :: rest) own = absorb rest (join first own) := rfl
      rw [hfirst, ih, names_join]
      simp [or_assoc]

/-- An entry names what it and the entries before it named, and nothing else. -/
theorem names_cascade {before owns : List (Option Domain)} {j : Nat} {after : Option Domain}
    (hafter : (cascade before owns)[j]? = some after) :
    Names after metric ↔ (∃ entry ∈ before, Names entry metric) ∨
      ∃ i ≤ j, ∃ own, owns[i]? = some own ∧ Names own metric := by
  induction owns generalizing before j with
  | nil => simp [cascade] at hafter
  | cons first rest ih =>
      rw [cascade] at hafter
      cases j with
      | zero =>
          obtain rfl : absorb before first = after := by simpa using hafter
          rw [names_absorb, or_comm]
          simp
      | succ j =>
          rw [ih (by simpa using hafter)]
          constructor
          · rintro (⟨entry, hentry, hnames⟩ | ⟨i, hi, own, hown, hnames⟩)
            · rcases List.mem_append.1 hentry with hentry | hentry
              · exact .inl ⟨entry, hentry, hnames⟩
              · obtain rfl := List.mem_singleton.1 hentry
                rcases names_absorb.1 hnames with hfirst | hbefore
                · exact .inr ⟨0, by omega, first, by simp, hfirst⟩
                · exact .inl hbefore
            · exact .inr ⟨i + 1, by omega, own, by simpa using hown, hnames⟩
          · rintro (⟨entry, hentry, hnames⟩ | ⟨i, hi, own, hown, hnames⟩)
            · exact .inl ⟨entry, List.mem_append_left _ hentry, hnames⟩
            · cases i with
              | zero =>
                  obtain rfl : first = own := by simpa using hown
                  exact .inl ⟨_, List.mem_append_right _ (List.mem_singleton_self _),
                    names_absorb.2 (.inl hnames)⟩
              | succ i => exact .inr ⟨i, by omega, own, by simpa using hown, hnames⟩

end Domain

namespace Selected

theorem wants_iff {s : Selected} {metric : String} :
    s.wants metric = true ↔ s.metrics = [] ∨ metric ∈ s.metrics := by
  simp [wants]

end Selected

namespace Plan

open Domain (Names)

/-- A collector selects for a level what the level requests. -/
theorem get?_selections_eq {plan : Plan} (named : plan.NamedByKey) (key domain : String) :
    (plan.selections domain).get? key = (request? plan.levels key domain).map .ofDomain := by
  cases hrequest : request? plan.levels key domain with
  | some d =>
      obtain ⟨level, hlevel, hd⟩ := Option.bind_eq_some_iff.1 hrequest
      exact get?_selections ((levelNamed?_eq_get? named key).trans hlevel) hd
  | none =>
      cases hget : (plan.selections domain).get? key with
      | none => rfl
      | some s =>
          rw [selections, Table.get?_ofList] at hget
          obtain ⟨before, after, hsplit, -⟩ := List.lookup_eq_some_iff.1 hget
          have hmem : (key, s) ∈ plan.levels.values.filterMap (fun level =>
              level.collect[domain]?.map (fun d => (level.name, Selected.ofDomain d))) := by
            rw [← List.mem_reverse, hsplit]
            simp
          obtain ⟨level, hlevel, hpair⟩ := List.mem_filterMap.1 hmem
          obtain ⟨d, hd, hpair⟩ := Option.map_eq_some_iff.1 hpair
          obtain ⟨own, hown⟩ := Table.mem_values.1 hlevel
          have hkey : key = own := by rw [← named.name_eq hown, (Prod.mk.inj hpair).1]
          have hd : level.collect.get? domain = some d := hd
          simp [request?, hkey, hown, hd] at hrequest

variable {plan sorted : Plan}

theorem namedByKey_inheriting (named : plan.NamedByKey) : plan.inheriting.NamedByKey := by
  unfold inheriting
  split
  · exact named
  · rintro ⟨key, level⟩ hlevel
    have hget : (inherit plan.levels plan.order).get? key = some level :=
      Table.get?_eq_some_iff.2 hlevel
    have hheading : heading? plan.levels key = some (level.name, level.freq) := by
      refine heading?_inherit.symm.trans (?_ : heading? (inherit plan.levels plan.order) key = _)
      rw [heading?, hget]
      rfl
    obtain ⟨before, hbefore, hname⟩ := Option.map_eq_some_iff.1 hheading
    exact (Prod.mk.inj hname).1.symm.trans (named.name_eq hbefore)

/-- After sorting, a level names just what it and the finer levels named before. -/
theorem names_request? (named : plan.NamedByKey) (fresh : plan.inherited = false)
    (h : plan.sort = .ok (plan.order, sorted)) (valid : plan.validate = .ok ()) {key : String}
    {secs : Nat} (hkey : plan.period? key = some secs) (domain metric : String) :
    Names (request? sorted.levels key domain) metric ↔
      ∃ finer n, plan.period? finer = some n ∧ n ≤ secs ∧
        Names (request? plan.levels finer domain) metric := by
  have hmem : ∀ {l : SortedLevel}, l ∈ plan.order ↔ plan.period? l.name = some l.freq :=
    mem_order_iff_period? named valid
  obtain ⟨j, hj, hjget⟩ := List.getElem_of_mem (hmem (l := ⟨key, secs⟩).2 hkey)
  have hj? : plan.order[j]? = some ⟨key, secs⟩ := List.getElem?_eq_some_iff.2 ⟨hj, hjget⟩
  have hcascade := congrArg (·[j]?) (map_request?_sort named fresh h domain)
  simp only [List.getElem?_map, hj?, Option.map_some] at hcascade
  rw [Domain.names_cascade hcascade.symm]
  have hascending := List.pairwise_iff_getElem.1 (pairwise_order valid)
  constructor
  · rintro (⟨entry, hentry, -⟩ | ⟨i, hi, own, hown, hnames⟩)
    · simp at hentry
    · obtain ⟨l, hl, rfl⟩ :
          ∃ l, plan.order[i]? = some l ∧ request? plan.levels l.name domain = own := by
        simpa using hown
      obtain ⟨hilt, higet⟩ := List.getElem?_eq_some_iff.1 hl
      refine ⟨l.name, l.freq, hmem.1 (List.mem_of_getElem? hl), ?_, hnames⟩
      rcases Nat.lt_or_eq_of_le hi with hlt | rfl
      · have hfreq := hascending i j hilt hj hlt
        rw [higet, hjget] at hfreq
        exact Nat.le_of_lt hfreq
      · exact Nat.le_of_eq (congrArg SortedLevel.freq (higet.symm.trans hjget))
  · rintro ⟨finer, n, hperiod, hle, hnames⟩
    obtain ⟨i, hi, higet⟩ := List.getElem_of_mem (hmem (l := ⟨finer, n⟩).2 hperiod)
    have hij : i ≤ j := by
      refine Nat.le_of_not_lt fun hgt => ?_
      have hfreq := hascending j i hj hi hgt
      rw [higet, hjget] at hfreq
      exact Nat.not_lt_of_le hle hfreq
    have hi? : plan.order[i]? = some ⟨finer, n⟩ := List.getElem?_eq_some_iff.2 ⟨hi, higet⟩
    exact .inr ⟨i, hij, _, by simp [hi?], hnames⟩

/--
What a level asks for after sorting, and with it when inheritance narrows a
request: never one that names metrics, but one for everything as soon as the
level or one of the finer ones names a metric of the domain.
-/
theorem wants_after_sort {levels : List SortedLevel} (named : plan.NamedByKey)
    (fresh : plan.inherited = false) (h : plan.sort = .ok (levels, sorted))
    {finer coarser : String} {n secs : Nat} (hfiner : plan.period? finer = some n)
    (hcoarser : plan.period? coarser = some secs) (hle : n ≤ secs) {domain : String}
    {asked : Selected} (hasked : (plan.selections domain).get? finer = some asked) :
    ∃ kept, (sorted.selections domain).get? coarser = some kept ∧
      (asked.metrics ≠ [] →
        ∀ metric, asked.wants metric = true → kept.wants metric = true) ∧
      ∀ metric, kept.wants metric = true ↔
        (∀ key p other, plan.period? key = some p → p ≤ secs →
            (plan.selections domain).get? key = some other → other.metrics = []) ∨
          ∃ key p other, plan.period? key = some p ∧ p ≤ secs ∧
            (plan.selections domain).get? key = some other ∧ metric ∈ other.metrics := by
  obtain ⟨valid, rfl, rfl⟩ := sort_eq_ok_iff.1 h
  have hmem : ∀ {l : SortedLevel}, l ∈ plan.order ↔ plan.period? l.name = some l.freq :=
    mem_order_iff_period? named valid
  rw [get?_selections_eq named] at hasked
  obtain ⟨own, hown, rfl⟩ := Option.map_eq_some_iff.1 hasked
  obtain ⟨entry, hentry, hsub⟩ := covered_request? named fresh h valid
    (hmem (l := ⟨finer, n⟩).2 hfiner) (hmem (l := ⟨coarser, secs⟩).2 hcoarser) hle domain own hown
  have hnames : ∀ metric, metric ∈ entry.metrics ↔ ∃ key p other, plan.period? key = some p ∧
      p ≤ secs ∧ (plan.selections domain).get? key = some other ∧ metric ∈ other.metrics := by
    intro metric
    have hiff := names_request? named fresh h valid hcoarser domain metric
    rw [show request? plan.inheriting.levels coarser domain = some entry from hentry] at hiff
    simp only [Names, Option.some.injEq, exists_eq_left'] at hiff
    rw [hiff]
    simp only [get?_selections_eq named, Option.map_eq_some_iff]
    constructor
    · rintro ⟨key, p, hp, hle, x, hx, hmetric⟩
      exact ⟨key, p, .ofDomain x, hp, hle, ⟨x, hx, rfl⟩, hmetric⟩
    · rintro ⟨key, p, -, hp, hle, ⟨x, hx, rfl⟩, hmetric⟩
      exact ⟨key, p, hp, hle, x, hx, hmetric⟩
  refine ⟨.ofDomain entry, ?_, ?_, ?_⟩
  · rw [get?_selections_eq (namedByKey_inheriting named)]
    exact congrArg (Option.map _) hentry
  · intro hsome metric hwants
    have hmetric : metric ∈ own.metrics := (Selected.wants_iff.1 hwants).resolve_left hsome
    exact Selected.wants_iff.2 (.inr (hsub hmetric))
  · intro metric
    rw [Selected.wants_iff]
    refine or_congr ?_ (hnames metric)
    have hempty : entry.metrics = [] ↔ ∀ metric, metric ∉ entry.metrics :=
      List.eq_nil_iff_forall_not_mem
    change entry.metrics = [] ↔ _
    rw [hempty]
    constructor
    · intro hnone key p other hp hle hother
      refine List.eq_nil_iff_forall_not_mem.2 fun metric hmetric => hnone metric ?_
      exact (hnames metric).2 ⟨key, p, other, hp, hle, hother, hmetric⟩
    · intro hall metric hmetric
      obtain ⟨key, p, other, hp, hle, hother, hin⟩ := (hnames metric).1 hmetric
      simp [hall key p other hp hle hother] at hin

/-- Everything every second, one metric every ten. -/
def everythingThenUsage : Plan :=
  .ofLevels "mixed" "inline" (.ofList [
    ("fast", { freq := "1s", collect := .ofList [("cpu", {})] }),
    ("slow", { freq := "10s", collect := .ofList [("cpu", { metrics := ["usage"] })] })])

theorem sort_everythingThenUsage : everythingThenUsage.sort =
    .ok (everythingThenUsage.order, everythingThenUsage.inheriting) :=
  sort_eq_ok_iff.2 ⟨validate_eq_ok_iff.2 (by decide +kernel), rfl, rfl⟩

theorem wants_after_sort_everythingThenUsage :
    ∃ kept, (everythingThenUsage.inheriting.selections "cpu").get? "slow" = some kept ∧
      kept.wants "usage" = true := by
  have hfiner : everythingThenUsage.period? "fast" = some 1 := by decide +kernel
  have hcoarser : everythingThenUsage.period? "slow" = some 10 := by decide +kernel
  have hasked : (everythingThenUsage.selections "cpu").get? "fast" = some {} := by decide +kernel
  obtain ⟨kept, hkept, -, hwants⟩ :=
    wants_after_sort (by decide +kernel) rfl sort_everythingThenUsage hfiner hcoarser (by decide)
      hasked
  refine ⟨kept, hkept, (hwants "usage").2 (.inr ⟨"slow", 10, { metrics := ["usage"] }, ?_⟩)⟩
  exact ⟨by decide +kernel, by decide, by decide +kernel, by simp⟩

/-- The finer level asks for the load, and at the ticks of the coarser one nobody collects it. -/
theorem everything_lost :
    everythingThenUsage.sort =
        .ok (everythingThenUsage.order, everythingThenUsage.inheriting) ∧
      everythingThenUsage.period? "fast" = some 1 ∧ everythingThenUsage.period? "slow" = some 10 ∧
      ((everythingThenUsage.selections "cpu").get? "fast").map (·.wants "load") = some true ∧
      ((everythingThenUsage.inheriting.selections "cpu").get? "slow").map (·.wants "load") =
        some false :=
  ⟨sort_everythingThenUsage, by decide +kernel, by decide +kernel, by decide +kernel,
    by decide +kernel⟩

end Plan

end Cadence
