import Cadence.Proofs.Plan.DueLevel
import Mathlib.Algebra.BigOperators.Intervals
import Mathlib.Algebra.BigOperators.Ring.Finset
import Mathlib.Tactic.Ring

/-!
# What a level has accumulated

The levels of a plan stand in a row by ascending frequency, and inheritance goes
along the row.  The first level that collects a domain keeps its entry.  Every
later one then has an entry, its own or a copy of that first one, and behind its
own metrics the lists of all the levels before it, each as it has become by
then.  So the lists double: what a level names stands once in its own list and
once in the next one, and twice as often with every level after that.
-/

namespace Cadence

namespace Domain

def metricsOf (entry : Option Domain) : List String := (entry.map (·.metrics)).getD []

variable {before rest finer owns : List (Option Domain)} {own : Option Domain} {first : Domain}
  {j k : Nat}

theorem absorb_of_none (h : ∀ entry ∈ finer, entry = none) : absorb finer own = own := by
  induction finer generalizing own with
  | nil => rfl
  | cons entry rest ih =>
      obtain ⟨rfl, hrest⟩ := List.forall_mem_cons.1 h
      exact ih hrest

theorem absorb_some (finer : List (Option Domain)) (own : Domain) :
    absorb finer (some own) =
      some { own with metrics := own.metrics ++ finer.flatMap metricsOf } := by
  induction finer generalizing own with
  | nil => simp [absorb]
  | cons entry rest ih =>
      have hcons : absorb (entry :: rest) (some own) = absorb rest (join entry (some own)) := rfl
      cases entry <;> simp [hcons, join, ih, metricsOf]

theorem metricsOf_absorb (finer : List (Option Domain)) (own : Option Domain) :
    metricsOf (absorb finer own) = metricsOf own ++ finer.flatMap metricsOf := by
  induction finer generalizing own with
  | nil => simp [absorb]
  | cons entry rest ih =>
      have hcons : absorb (entry :: rest) own = absorb rest (join entry own) := rfl
      rw [hcons, ih, List.flatMap_cons, ← List.append_assoc]
      congr 1
      cases entry <;> cases own <;> simp [join, metricsOf]

/-- Without an entry of one's own the first one there is becomes it. -/
theorem absorb_from_first (h : ∀ entry ∈ before, entry = none) :
    absorb (before ++ some first :: rest) own =
      some { own.getD first with
        metrics := metricsOf own ++ (some first :: rest).flatMap metricsOf } := by
  have hsplit : absorb (before ++ some first :: rest) own =
      absorb rest (join (some first) (absorb before own)) := by
    simp [absorb, List.foldl_append]
  rw [hsplit, absorb_of_none h]
  cases own <;> simp [join, absorb_some, metricsOf]

theorem length_cascade (before owns : List (Option Domain)) :
    (cascade before owns).length = owns.length := by
  induction owns generalizing before with
  | nil => rfl
  | cons own rest ih => simp [cascade, ih]

/-- Every entry of the row has absorbed the entries before it as they have become. -/
theorem getElem?_cascade (before owns : List (Option Domain)) (j : Nat) :
    (cascade before owns)[j]? =
      owns[j]?.map (absorb (before ++ (cascade before owns).take j)) := by
  induction owns generalizing before j with
  | nil => rfl
  | cons own rest ih =>
      cases j with
      | zero => simp [cascade]
      | succ j => simp [cascade, ih]

section Row

variable (row : cascade [] owns = finer)
include row

theorem entry_cascade (hj : j < owns.length) :
    finer[j]?.join = absorb (finer.take j) owns[j]?.join := by
  have hentry := getElem?_cascade [] owns j
  rw [row, List.nil_append] at hentry
  rw [hentry, List.getElem?_eq_getElem hj]
  rfl

theorem cascade_none (h : ∀ i ≤ j, owns[i]?.join = none) : finer[j]?.join = none := by
  induction j using Nat.strong_induction_on with
  | _ j ih =>
      by_cases hj : j < owns.length
      · rw [entry_cascade row hj, h j (Nat.le_refl j)]
        refine absorb_of_none fun entry hentry => ?_
        obtain ⟨i, hi, rfl⟩ := List.mem_take_iff_getElem.1 hentry
        have hbefore := ih i (by omega) fun i' hi' => h i' (by omega)
        rwa [List.getElem?_eq_getElem (by omega)] at hbefore
      · rw [List.getElem?_eq_none (by rw [← row, length_cascade]; omega)]
        rfl

theorem take_none (h : ∀ i < k, owns[i]?.join = none) : ∀ entry ∈ finer.take k, entry = none := by
  intro entry hentry
  obtain ⟨i, hi, rfl⟩ := List.mem_take_iff_getElem.1 hentry
  have hnone := cascade_none row (j := i) fun i' hi' => h i' (by omega)
  rwa [List.getElem?_eq_getElem (by omega)] at hnone

theorem cascade_first (hfirst : owns[k]?.join = some first)
    (h : ∀ i < k, owns[i]?.join = none) : finer[k]?.join = some first := by
  have hk : k < owns.length := by
    by_contra hk
    simp [List.getElem?_eq_none (Nat.not_lt.1 hk)] at hfirst
  rw [entry_cascade row hk, absorb_of_none (take_none row h), hfirst]

end Row

theorem flatMap_segment {α : Type} (row : List (Option Domain)) (f : Option Domain → List α)
    {k len : Nat} (h : k + len ≤ row.length) :
    ((row.drop k).take len).flatMap f =
      (List.range' k len).flatMap (fun i => f row[i]?.join) := by
  induction len generalizing k with
  | zero => simp
  | succ len ih =>
      have hk : k < row.length := by omega
      rw [List.drop_eq_getElem_cons hk, List.take_succ_cons, List.flatMap_cons, List.range'_succ,
        List.flatMap_cons, ih (by omega), List.getElem?_eq_getElem hk]
      rfl

theorem cascade_after (hfirst : owns[k]?.join = some first) (h : ∀ i < k, owns[i]?.join = none)
    (hk : k < j) (hj : j < owns.length) :
    (cascade [] owns)[j]?.join = some { owns[j]?.join.getD first with
      metrics := metricsOf owns[j]?.join ++
        (List.range' k (j - k)).flatMap (fun i => metricsOf (cascade [] owns)[i]?.join) } := by
  have hlength := length_cascade [] owns
  rw [entry_cascade rfl hj]
  generalize hrow : cascade [] owns = row at hlength
  have hin : k < row.length := by omega
  have hentry : row[k] = some first := by
    have hentry := cascade_first hrow hfirst h
    rwa [List.getElem?_eq_getElem hin] at hentry
  have hsegment : (row.drop k).take (j - k) =
      some first :: (row.drop (k + 1)).take (j - k - 1) := by
    obtain ⟨len, rfl⟩ := Nat.exists_eq_add_of_lt hk
    rw [List.drop_eq_getElem_cons hin, hentry, show k + len + 1 - k = len + 1 by omega,
      List.take_succ_cons]
    rfl
  have hsplit : row.take j = row.take k ++ (row.drop k).take (j - k) := by
    rw [← List.take_add, Nat.add_sub_cancel' hk.le]
  rw [hsplit, hsegment, absorb_from_first (take_none hrow h), ← hsegment,
    flatMap_segment row metricsOf (by omega)]

/-- Who adds up all before it and something of its own doubles what came before, step by step. -/
theorem eq_sum_of_accumulates (total own : Nat → Nat) {n : Nat}
    (h : ∀ j < n, total j = own j + ∑ i ∈ Finset.range j, total i) {j : Nat} (hj : j < n) :
    total j = own j + ∑ i ∈ Finset.range j, 2 ^ (j - 1 - i) * own i := by
  have hsum : ∀ j ≤ n, ∑ i ∈ Finset.range j, total i =
      ∑ i ∈ Finset.range j, 2 ^ (j - 1 - i) * own i := by
    intro j hj
    induction j with
    | zero => rfl
    | succ j ih =>
        have hdouble : ∑ i ∈ Finset.range j, 2 ^ (j - i) * own i =
            2 * ∑ i ∈ Finset.range j, 2 ^ (j - 1 - i) * own i := by
          rw [Finset.mul_sum]
          refine Finset.sum_congr rfl fun i hi => ?_
          rw [Finset.mem_range] at hi
          rw [show j - i = j - 1 - i + 1 by omega, Nat.pow_succ]
          ring
        rw [Finset.sum_range_succ, Finset.sum_range_succ, h j (by omega), ih (by omega),
          Nat.add_sub_cancel, hdouble, Nat.sub_self]
        ring
  rw [h j hj, hsum j hj.le]

theorem count_cascade (owns : List (Option Domain)) (metric : String) {j : Nat}
    (hj : j < owns.length) :
    (metricsOf (cascade [] owns)[j]?.join).count metric =
      (metricsOf owns[j]?.join).count metric +
        ∑ i ∈ Finset.range j, 2 ^ (j - 1 - i) * (metricsOf owns[i]?.join).count metric := by
  have hlength := length_cascade [] owns
  refine eq_sum_of_accumulates (fun i => (metricsOf (cascade [] owns)[i]?.join).count metric)
    (fun i => (metricsOf owns[i]?.join).count metric) (fun j hj => ?_) hj
  have hbefore : (((cascade [] owns).drop 0).take j).flatMap metricsOf = _ :=
    flatMap_segment (cascade [] owns) metricsOf (by omega)
  have hsum : ∀ len, ((List.range len).flatMap
      (fun i => metricsOf (cascade [] owns)[i]?.join)).count metric =
      ∑ i ∈ Finset.range len, (metricsOf (cascade [] owns)[i]?.join).count metric := by
    intro len
    induction len with
    | zero => rfl
    | succ len ih =>
        rw [List.range_succ, List.flatMap_append, List.count_append, ih, Finset.sum_range_succ]
        simp
  rw [← hsum, List.range_eq_range', ← hbefore, List.drop_zero, entry_cascade rfl hj,
    metricsOf_absorb, List.count_append]

end Domain

namespace Plan

open Domain (cascade metricsOf)

/-- What the `j`-th level of the order asks the domain for. -/
def entryAt (plan : Plan) (order : List SortedLevel) (domain : String) (j : Nat) : Option Domain :=
  order[j]?.bind (fun l => request? plan.levels l.name domain)

def metricsAt (plan : Plan) (order : List SortedLevel) (domain : String) (j : Nat) : List String :=
  metricsOf (plan.entryAt order domain j)

/-- The first level of the order that collects the domain, and its entry. -/
structure FirstAt (plan : Plan) (order : List SortedLevel) (domain : String) (k : Nat)
    (first : Domain) : Prop where
  entry : plan.entryAt order domain k = some first
  before : ∀ i < k, plan.entryAt order domain i = none

variable {plan sorted : Plan} {order : List SortedLevel} {domain : String}

theorem entryAt_eq (plan : Plan) (order : List SortedLevel) (domain : String) (j : Nat) :
    plan.entryAt order domain j =
      (order.map (fun l => request? plan.levels l.name domain))[j]?.join := by
  rw [entryAt, List.getElem?_map]
  cases order[j]? <;> rfl

theorem firstAt_or_none (plan : Plan) (order : List SortedLevel) (domain : String) :
    (∃ k first, plan.FirstAt order domain k first) ∨ ∀ j, plan.entryAt order domain j = none := by
  by_cases h : ∃ j, plan.entryAt order domain j ≠ none
  · obtain ⟨first, hfirst⟩ := Option.ne_none_iff_exists'.1 (Nat.find_spec h)
    refine .inl ⟨Nat.find h, first, hfirst, fun i hi => ?_⟩
    simpa using Nat.find_min h hi
  · exact .inr (by simpa using h)

/-- What inheritance makes of the entries for one domain. -/
structure Accumulates (plan sorted : Plan) (order : List SortedLevel) (domain : String) : Prop where
  nowhere : (∀ j, plan.entryAt order domain j = none) → ∀ j, sorted.entryAt order domain j = none
  before : ∀ k first, plan.FirstAt order domain k first →
    ∀ j < k, sorted.entryAt order domain j = none
  first : ∀ k first, plan.FirstAt order domain k first → sorted.entryAt order domain k = some first
  behind : ∀ k first, plan.FirstAt order domain k first → ∀ j, k < j → j < order.length →
    sorted.entryAt order domain j = some { (plan.entryAt order domain j).getD first with
      metrics := plan.metricsAt order domain j ++
        (List.range' k (j - k)).flatMap (sorted.metricsAt order domain) }
  count : ∀ j < order.length, ∀ metric,
    (sorted.metricsAt order domain j).count metric =
      (plan.metricsAt order domain j).count metric +
        ∑ i ∈ Finset.range j, 2 ^ (j - 1 - i) * (plan.metricsAt order domain i).count metric

theorem accumulates_of_sort (named : plan.NamedByKey) (fresh : plan.inherited = false)
    (h : plan.sort = .ok (order, sorted)) (domain : String) :
    Accumulates plan sorted order domain := by
  have hplan := entryAt_eq plan order domain
  have hsorted := entryAt_eq sorted order domain
  rw [map_request?_sort named fresh h domain] at hsorted
  have hlength : (order.map (fun l => request? plan.levels l.name domain)).length = order.length :=
    List.length_map _
  generalize order.map (fun l => request? plan.levels l.name domain) = owns at hplan hsorted hlength
  have hfirst : ∀ {k first}, plan.FirstAt order domain k first →
      owns[k]?.join = some first ∧ ∀ i < k, owns[i]?.join = none :=
    fun hk => ⟨hplan _ ▸ hk.entry, fun i hi => hplan i ▸ hk.before i hi⟩
  constructor
  · intro hnone j
    rw [hsorted]
    exact Domain.cascade_none rfl fun i _ => hplan i ▸ hnone i
  · intro k first hk j hj
    rw [hsorted]
    exact Domain.cascade_none rfl fun i hi => (hfirst hk).2 i (by omega)
  · intro k first hk
    rw [hsorted]
    exact Domain.cascade_first rfl (hfirst hk).1 (hfirst hk).2
  · intro k first hk j hkj hj
    have hbehind := Domain.cascade_after (hfirst hk).1 (hfirst hk).2 hkj (by omega)
    simp only [← hplan, ← hsorted] at hbehind
    exact hbehind
  · intro j hj metric
    have hcount := Domain.count_cascade owns metric (j := j) (by omega)
    simp only [← hplan, ← hsorted] at hcount
    exact hcount

theorem source_of_sort (h : plan.sort = .ok (order, sorted)) : sorted.source = plan.source := by
  obtain ⟨-, -, rfl⟩ := sort_eq_ok_iff.1 h
  unfold inheriting
  split <;> rfl

theorem heading?_of_sort (h : plan.sort = .ok (order, sorted)) (key : String) :
    heading? sorted.levels key = heading? plan.levels key := by
  obtain ⟨-, -, rfl⟩ := sort_eq_ok_iff.1 h
  unfold inheriting
  split
  · rfl
  · exact heading?_inherit

theorem keys_of_sort (h : plan.sort = .ok (order, sorted)) :
    sorted.levels.keys = plan.levels.keys :=
  Table.keys_eq_of_mem_iff fun key => by
    rw [mem_iff_heading?, heading?_of_sort h, ← mem_iff_heading?]

theorem mem_domains_iff_entryAt (hkeys : (order.map (·.name)).Perm plan.levels.keys) {d : String} :
    d ∈ plan.domains ↔ ∃ j, plan.entryAt order d j ≠ none := by
  have hmem : ∀ key, key ∈ order.map (·.name) ↔ key ∈ plan.levels :=
    fun key => hkeys.mem_iff.trans Table.mem_keys
  rw [mem_domains]
  constructor
  · rintro ⟨level, hlevel, hd⟩
    obtain ⟨key, hkey⟩ := Table.mem_values.1 hlevel
    obtain ⟨l, hl, rfl⟩ := List.mem_map.1 ((hmem key).2 (Table.mem_iff.2 ⟨level, hkey⟩))
    obtain ⟨j, hj, rfl⟩ := List.getElem_of_mem hl
    obtain ⟨entry, hentry⟩ := Table.mem_iff.1 hd
    refine ⟨j, ?_⟩
    simp [entryAt, request?, List.getElem?_eq_getElem hj, hkey, hentry]
  · rintro ⟨j, hj⟩
    obtain ⟨entry, hentry⟩ := Option.ne_none_iff_exists'.1 hj
    obtain ⟨l, -, hrequest⟩ := Option.bind_eq_some_iff.1 hentry
    obtain ⟨level, hlevel, hd⟩ := Option.bind_eq_some_iff.1 hrequest
    exact ⟨level, Table.mem_values.2 ⟨_, hlevel⟩, Table.mem_iff.2 ⟨entry, hd⟩⟩

theorem Accumulates.entryAt_eq_none_iff (h : Accumulates plan sorted order domain) :
    (∀ j, sorted.entryAt order domain j = none) ↔ ∀ j, plan.entryAt order domain j = none := by
  refine ⟨fun hnone => ?_, h.nowhere⟩
  rcases firstAt_or_none plan order domain with ⟨k, first, hk⟩ | habsent
  · exact absurd ((h.first k first hk).symm.trans (hnone k)) (by simp)
  · exact habsent

/-- Sorting gives every level what the finer ones have accumulated, in closed form, and leaves
everything else of the plan as it is. -/
theorem sort_accumulates (named : plan.NamedByKey) (fresh : plan.inherited = false)
    (h : plan.sort = .ok (order, sorted)) :
    order.Pairwise (fun a b => a.freq < b.freq) ∧
      (order.map (·.name)).Perm plan.levels.keys ∧
      (∀ l ∈ order, plan.period? l.name = some l.freq) ∧
      (∀ domain, Accumulates plan sorted order domain) ∧
      sorted.name = plan.name ∧ sorted.source = plan.source ∧
      sorted.levels.keys = plan.levels.keys ∧
      (∀ key, heading? sorted.levels key = heading? plan.levels key) ∧
      sorted.domains = plan.domains := by
  have haccumulates := accumulates_of_sort named fresh h
  have hkeys := keys_of_sort h
  obtain ⟨valid, rfl, -⟩ := sort_eq_ok_iff.1 h
  have hnames := perm_order_names named
  refine ⟨pairwise_order valid, hnames, fun l hl => (mem_order_iff_period? named valid).1 hl,
    haccumulates, name_of_sort h, source_of_sort h, hkeys, heading?_of_sort h, ?_⟩
  refine Table.keys_eq_of_mem_iff fun d => ?_
  rw [← Table.mem_keys, ← Table.mem_keys]
  have hbefore := mem_domains_iff_entryAt hnames (d := d)
  have hafter : d ∈ sorted.domains ↔ _ := mem_domains_iff_entryAt (hkeys ▸ hnames)
  have hsame := not_congr (haccumulates d).entryAt_eq_none_iff
  simp only [not_forall] at hsame
  exact hafter.trans (hsame.trans hbefore.symm)

/-- Of four levels the finest does without the processor, and the third one has it from the
second. -/
def ladder : Plan :=
  .ofLevels "ladder" "inline" (.ofList [
    ("first", { freq := "1s", collect := .ofList [("memory", { metrics := ["used"] })] }),
    ("second", { freq := "2s", collect := .ofList [("cpu", { metrics := ["usage"] })] }),
    ("third", { freq := "4s" }),
    ("fourth", { freq := "8s", collect := .ofList [("cpu", { metrics := ["load"] })] })])

theorem sort_accumulates_copies :
    ∃ order sorted, ladder.sort = .ok (order, sorted) ∧
      sorted.entryAt order "cpu" 0 = none ∧
      sorted.entryAt order "cpu" 2 = some { name := "cpu", metrics := ["usage"] } ∧
      (sorted.metricsAt order "cpu" 3).count "usage" = 2 ∧ sorted.domains = ["cpu", "memory"] := by
  have hsort : ladder.sort = .ok (ladder.order, ladder.inheriting) :=
    sort_eq_ok_iff.2 ⟨validate_eq_ok_iff.2 (by decide +kernel), rfl, rfl⟩
  obtain ⟨-, -, -, haccumulates, -, -, -, -, hdomains⟩ :=
    sort_accumulates (by decide +kernel) rfl hsort
  obtain ⟨-, hbefore, hfirst, hbehind, hcount⟩ := haccumulates "cpu"
  have hsecond : ladder.FirstAt ladder.order "cpu" 1 { name := "cpu", metrics := ["usage"] } :=
    ⟨by decide +kernel, by decide +kernel⟩
  have hown : ladder.entryAt ladder.order "cpu" 2 = none := by decide +kernel
  have hlength : ladder.order.length = 4 := by decide +kernel
  refine ⟨_, _, hsort, hbefore _ _ hsecond 0 (by decide), ?_, ?_, ?_⟩
  · rw [hbehind _ _ hsecond 2 (by decide) (by omega)]
    simp [metricsAt, hown, hfirst _ _ hsecond, metricsOf]
  · rw [hcount 3 (by omega) "usage"]
    decide +kernel
  · rw [hdomains]
    decide +kernel

end Plan

end Cadence
