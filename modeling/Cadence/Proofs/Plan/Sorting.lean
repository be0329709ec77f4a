import Cadence.Plan.Order
import Cadence.Proofs.Plan.Names

/-!
# Validation and the order of the levels

What validation accepts, and the list that sorting returns for it: every level
once, with its whole seconds, in strictly ascending order.
-/

namespace Cadence

namespace Plan

theorem freqSecs_pos {name : String} {level : Level} {secs : Nat}
    (h : freqSecs name level = .ok secs) : 0 < secs := by
  unfold freqSecs at h
  split at h
  · contradiction
  · split at h
    · contradiction
    · cases h
      omega

/-- The levels pass the check if none of them has a frequency that was seen before. -/
theorem checkLevels_eq_ok_iff {name : String} {seen : Table Nat String} {levels : List Level} :
    checkLevels name seen levels = .ok () ↔
      (∀ level ∈ levels, (∃ secs, freqSecs name level = .ok secs ∧ seen.get? secs = none) ∧
        badMetric? level = none) ∧
      levels.Pairwise (fun a b => freqSecs name a ≠ freqSecs name b) := by
  induction levels generalizing seen with
  | nil => simp [checkLevels]
  | cons level rest ih =>
      rw [checkLevels, List.pairwise_cons]
      cases hfreq : freqSecs name level with
      | error e => simp [hfreq, bind, Except.bind]
      | ok secs =>
          cases hseen : seen.get? secs with
          | some first => simp [hfreq, hseen, bind, Except.bind]
          | none =>
              cases hbad : badMetric? level with
              | some bad => simp [hfreq, hseen, hbad, bind, Except.bind]
              | none =>
                  have unseen : ∀ other, (∃ n, freqSecs name other = .ok n ∧
                      (seen.insert secs level.name).get? n = none) ↔
                      (∃ n, freqSecs name other = .ok n ∧ seen.get? n = none) ∧
                        .ok secs ≠ freqSecs name other := by
                    intro other
                    simp only [Table.get?_insert]
                    constructor
                    · rintro ⟨n, hn, hnone⟩
                      split at hnone
                      · contradiction
                      · next hne => exact ⟨⟨n, hn, hnone⟩, by simp [hn, Ne.symm hne]⟩
                    · rintro ⟨⟨n, hn, hnone⟩, hne⟩
                      have hne : n ≠ secs := by
                        rintro rfl
                        exact hne hn.symm
                      exact ⟨n, hn, by simp [hne, hnone]⟩
                  simp only [hseen, hbad, bind, Except.bind, Table.getElem?_eq_get?, ih, unseen,
                    List.forall_mem_cons, hfreq, and_true]
                  constructor
                  · rintro ⟨hrest, hpairs⟩
                    exact ⟨⟨⟨secs, rfl, hseen⟩, fun other h => ⟨(hrest other h).1.1, (hrest other h).2⟩⟩,
                      fun other h => (hrest other h).1.2, hpairs⟩
                  · rintro ⟨⟨-, hrest⟩, hne, hpairs⟩
                    exact ⟨fun other h => ⟨⟨(hrest other h).1, hne other h⟩, (hrest other h).2⟩, hpairs⟩

theorem perm_insertByFreq (level : SortedLevel) (levels : List SortedLevel) :
    (insertByFreq level levels).Perm (level :: levels) := by
  induction levels with
  | nil => exact .refl _
  | cons other rest ih =>
      rw [insertByFreq]
      split
      · exact .refl _
      · exact (ih.cons other).trans (.swap level other rest)

theorem pairwise_insertByFreq {level : SortedLevel} {levels : List SortedLevel}
    (h : levels.Pairwise (fun a b => a.freq ≤ b.freq)) :
    (insertByFreq level levels).Pairwise (fun a b => a.freq ≤ b.freq) := by
  induction levels with
  | nil => exact List.pairwise_singleton _ _
  | cons other rest ih =>
      obtain ⟨hother, hrest⟩ := List.pairwise_cons.1 h
      rw [insertByFreq]
      split
      · next hlt =>
          refine List.pairwise_cons.2 ⟨fun l hl => ?_, h⟩
          rcases List.mem_cons.1 hl with rfl | hl
          · omega
          · have := hother l hl
            omega
      · next hle =>
          refine List.pairwise_cons.2 ⟨fun l hl => ?_, ih hrest⟩
          rcases List.mem_cons.1 ((perm_insertByFreq level rest).mem_iff.1 hl) with rfl | hl
          · omega
          · exact hother l hl

theorem perm_byFreq (levels : List SortedLevel) : (byFreq levels).Perm levels := by
  have fold : ∀ sorted : List SortedLevel,
      (levels.foldl (fun sorted level => insertByFreq level sorted) sorted).Perm
        (sorted ++ levels) := by
    induction levels with
    | nil => intro sorted; simp
    | cons level rest ih =>
        intro sorted
        refine (ih _).trans ?_
        exact ((perm_insertByFreq level sorted).append_right rest).trans List.perm_middle.symm
  exact fold []

theorem pairwise_byFreq (levels : List SortedLevel) :
    (byFreq levels).Pairwise (fun a b => a.freq ≤ b.freq) :=
  List.foldlRecOn levels _ List.Pairwise.nil fun _ h _ _ => pairwise_insertByFreq h

def seconds (name : String) (level : Level) : Nat :=
  match freqSecs name level with
  | .ok secs => secs
  | .error _ => 0

def order (plan : Plan) : List SortedLevel :=
  byFreq (plan.levels.values.map (fun level => ⟨level.name, seconds plan.name level⟩))

/-- Inheritance is applied to a plan once. -/
def inheriting (plan : Plan) : Plan :=
  if plan.inherited then plan
  else { plan with levels := inherit plan.levels plan.order, inherited := true }

theorem freqSecs_iff_seconds {name : String} {level : Level} {secs : Nat} :
    freqSecs name level = .ok secs ↔ seconds name level = secs ∧ 0 < secs := by
  constructor
  · intro h
    exact ⟨by simp [seconds, h], freqSecs_pos h⟩
  · rintro ⟨rfl, hpos⟩
    cases h : freqSecs name level with
    | error e => simp [seconds, h] at hpos
    | ok secs => simp [seconds, h]

private theorem mapM_eq_ok {α β ε : Type} {f : α → Except ε β} {g : α → β} {as : List α}
    (h : ∀ a ∈ as, f a = .ok (g a)) : as.mapM f = .ok (as.map g) := by
  induction as with
  | nil => rfl
  | cons a as ih =>
      obtain ⟨ha, has⟩ := List.forall_mem_cons.1 h
      simp [ha, ih has, bind, Except.bind, pure, Except.pure]

theorem seconds_pos_iff {name : String} {level : Level} :
    0 < seconds name level ↔ ∃ secs, freqSecs name level = .ok secs := by
  constructor
  · exact fun h => ⟨_, freqSecs_iff_seconds.2 ⟨rfl, h⟩⟩
  · rintro ⟨secs, h⟩
    obtain ⟨rfl, hpos⟩ := freqSecs_iff_seconds.1 h
    exact hpos

theorem validate_eq_ok_iff {plan : Plan} :
    plan.validate = .ok () ↔
      (∀ level ∈ plan.levels.values, 0 < seconds plan.name level ∧ badMetric? level = none) ∧
      plan.levels.values.Pairwise (fun a b => seconds plan.name a ≠ seconds plan.name b) := by
  simp only [validate, checkLevels_eq_ok_iff, Table.get?_empty, and_true, seconds_pos_iff]
  refine and_congr_right fun hall => ?_
  refine List.Pairwise.iff_of_mem fun {a b} ha hb => not_congr ?_
  obtain ⟨n, hn⟩ := (hall a ha).1
  obtain ⟨m, hm⟩ := (hall b hb).1
  simp [seconds, hn, hm]

/-- The frequencies that have passed the check can be read again. -/
theorem mapM_freqSecs {plan : Plan} (valid : plan.validate = .ok ()) :
    plan.levels.values.mapM (fun level => do
      return { name := level.name, freq := ← freqSecs plan.name level : SortedLevel }) =
      .ok (plan.levels.values.map (fun level => ⟨level.name, seconds plan.name level⟩)) := by
  refine mapM_eq_ok fun level hlevel => ?_
  have hpos := ((validate_eq_ok_iff.1 valid).1 level hlevel).1
  rw [freqSecs_iff_seconds.2 ⟨rfl, hpos⟩]
  rfl

theorem sort_eq (plan : Plan) :
    plan.sort = plan.validate.map (fun _ => (plan.order, plan.inheriting)) := by
  cases hvalid : plan.validate with
  | error e => simp [sort, hvalid, bind, Except.bind, Except.map]
  | ok _ =>
      rw [sort, hvalid, mapM_freqSecs hvalid]
      cases hinherited : plan.inherited <;>
        simp [inheriting, order, hinherited, bind, Except.bind, Except.map, pure, Except.pure]

theorem sort_eq_ok_iff {plan sorted : Plan} {levels : List SortedLevel} :
    plan.sort = .ok (levels, sorted) ↔
      plan.validate = .ok () ∧ levels = plan.order ∧ sorted = plan.inheriting := by
  rw [sort_eq]
  cases plan.validate with
  | error e => simp [Except.map]
  | ok _ => simp [Except.map, eq_comm]

theorem name_of_sort {plan sorted : Plan} {levels : List SortedLevel}
    (h : plan.sort = .ok (levels, sorted)) : sorted.name = plan.name := by
  obtain ⟨-, -, rfl⟩ := sort_eq_ok_iff.1 h
  unfold inheriting
  split <;> rfl

theorem perm_order (plan : Plan) :
    plan.order.Perm
      (plan.levels.values.map (fun level => ⟨level.name, seconds plan.name level⟩)) :=
  perm_byFreq _

theorem pairwise_order {plan : Plan} (valid : plan.validate = .ok ()) :
    plan.order.Pairwise (fun a b => a.freq < b.freq) := by
  have hdistinct : plan.order.Pairwise (fun a b => a.freq ≠ b.freq) := by
    refine (perm_order plan).symm.pairwise ?_ fun h => Ne.symm h
    exact List.pairwise_map.2 (validate_eq_ok_iff.1 valid).2
  refine ((pairwise_byFreq _).and hdistinct).imp fun {a b} h => ?_
  omega

theorem mem_order {plan : Plan} (named : plan.NamedByKey) (valid : plan.validate = .ok ())
    {l : SortedLevel} :
    l ∈ plan.order ↔ ∃ level, plan.levels.get? l.name = some level ∧
      freqSecs plan.name level = .ok l.freq := by
  rw [(perm_order plan).mem_iff, List.mem_map]
  constructor
  · rintro ⟨level, hlevel, rfl⟩
    obtain ⟨key, hkey⟩ := Table.mem_values.1 hlevel
    have hpos := ((validate_eq_ok_iff.1 valid).1 level hlevel).1
    exact ⟨level, by rw [named.name_eq hkey, hkey], freqSecs_iff_seconds.2 ⟨rfl, hpos⟩⟩
  · rintro ⟨level, hget, hfreq⟩
    refine ⟨level, Table.mem_values.2 ⟨_, hget⟩, ?_⟩
    rw [named.name_eq hget, (freqSecs_iff_seconds.1 hfreq).1]

/-- Every level stands in the order once. -/
theorem perm_order_names {plan : Plan} (named : plan.NamedByKey) :
    (plan.order.map (·.name)).Perm plan.levels.keys := by
  have hkeys : plan.levels.values.map (·.name) = plan.levels.keys := by
    rw [Table.values, Table.keys, List.map_map]
    exact List.map_congr_left named
  have hperm := (perm_order plan).map (·.name)
  rwa [List.map_map, ← hkeys] at *

theorem nodup_order_names {plan : Plan} (named : plan.NamedByKey) :
    (plan.order.map (·.name)).Nodup :=
  (perm_order_names named).nodup_iff.2 plan.levels.nodup_keys

end Plan

end Cadence
