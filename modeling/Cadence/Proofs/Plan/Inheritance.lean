import Cadence.Proofs.Plan.Sorting

/-!
# Inheritance, domain by domain

Sorting folds tables into tables.  Seen from one domain it does something
simple: the entries of the levels stand in a row, and each takes in those before
it, the first one first.
-/

namespace Cadence

namespace Domain

/-- The entry of a coarser level once that of a finer one is folded in. -/
def join : Option Domain → Option Domain → Option Domain
  | none, own => own
  | some finer, none => some finer
  | some finer, some own => some { own with metrics := own.metrics ++ finer.metrics }

def absorb (finer : List (Option Domain)) (own : Option Domain) : Option Domain :=
  finer.foldl (fun own entry => join entry own) own

theorem absorb_snoc (finer : List (Option Domain)) (entry own : Option Domain) :
    absorb (finer ++ [entry]) own = join entry (absorb finer own) := by
  rw [absorb, List.foldl_append, absorb]
  rfl

/-- The row of entries that inheritance makes of a row that comes after the entries `finer`. -/
def cascade (finer : List (Option Domain)) : List (Option Domain) → List (Option Domain)
  | [] => []
  | own :: rest => absorb finer own :: cascade (finer ++ [absorb finer own]) rest

end Domain

namespace Plan

open Domain (join absorb cascade)

def request? (levels : Table String Level) (key domain : String) : Option Domain :=
  (levels.get? key).bind (·.collect.get? domain)

def heading? (levels : Table String Level) (key : String) : Option (String × String) :=
  (levels.get? key).map (fun level => (level.name, level.freq))

theorem get?_fold (finer coarser : Table String Domain) (domain : String) :
    (fold finer coarser).get? domain = join (finer.get? domain) (coarser.get? domain) := by
  have hlookup : finer.get? domain = finer.entries.lookup domain := rfl
  have hsorted := finer.sorted
  rw [fold, hlookup, Table.toList]
  generalize finer.entries = entries at hsorted
  induction entries generalizing coarser with
  | nil => rfl
  | cons e rest ih =>
      obtain ⟨key, finer⟩ := e
      obtain ⟨hfirst, hrest⟩ := List.pairwise_cons.1 hsorted
      rw [List.foldl_cons, ih _ hrest, Table.lookup_cons_ite]
      by_cases hkey : domain = key
      · subst hkey
        -- The keys ascend, so the rest does not touch this domain again.
        have habsent : rest.lookup domain = none := by
          rw [List.lookup_eq_none_iff]
          intro other hother
          have hlt := hfirst other hother
          simpa using fun h : domain = other.1 => Key.lt_irrefl domain (h ▸ hlt)
        cases hown : coarser.get? domain <;> simp [habsent, hown, join]
      · cases hown : coarser.get? key <;> simp [hkey, hown, Table.get?_insert]

section Levels

variable {levels : Table String Level} {finer coarser key : String} {sorted : List SortedLevel}

theorem get?_foldLevel_of_ne (hkey : key ≠ coarser) :
    (foldLevel levels finer coarser).get? key = levels.get? key := by
  unfold foldLevel
  split
  · simp [Table.get?_insert, hkey]
  · rfl

theorem request?_foldLevel (domain : String) (hcoarser : coarser ∈ levels) :
    request? (foldLevel levels finer coarser) coarser domain =
      join (request? levels finer domain) (request? levels coarser domain) := by
  obtain ⟨target, htarget⟩ := Table.mem_iff.1 hcoarser
  simp only [foldLevel, Table.getElem?_eq_get?, htarget]
  cases hsource : levels.get? finer with
  | none => simp [request?, hsource, join]
  | some source => simp [request?, hsource, htarget, get?_fold]

theorem heading?_foldLevel : heading? (foldLevel levels finer coarser) key = heading? levels key := by
  unfold foldLevel
  split
  · next source target hsource htarget =>
      have htarget : levels.get? coarser = some target := htarget
      by_cases hkey : key = coarser
      · simp [heading?, hkey, htarget]
      · simp [heading?, Table.get?_insert, hkey]
  · rfl

theorem heading?_foldLevels :
    heading? (sorted.foldl (fun levels other => foldLevel levels finer other.name) levels) key =
      heading? levels key :=
  List.foldlRecOn sorted _ (motive := fun t => heading? t key = heading? levels key) rfl
    fun _ h _ _ => heading?_foldLevel.trans h

/-- Inheritance changes what levels collect and nothing else of them. -/
theorem heading?_inherit : heading? (inherit levels sorted) key = heading? levels key := by
  induction sorted generalizing levels with
  | nil => rfl
  | cons level rest ih =>
      rw [inherit, ih, heading?_foldLevels]

theorem mem_iff_heading? : key ∈ levels ↔ (heading? levels key).isSome := by
  rw [Table.mem_iff, ← Option.isSome_iff_exists, heading?, Option.isSome_map]

/-- The levels stand as before, each with its name and its frequency. -/
theorem map_values_inherit {α : Type} (f : String × String → α) :
    (inherit levels sorted).values.map (fun l => f (l.name, l.freq)) =
      levels.values.map (fun l => f (l.name, l.freq)) := by
  have hsame : (inherit levels sorted).map (fun _ l => f (l.name, l.freq)) =
      levels.map (fun _ l => f (l.name, l.freq)) := by
    ext key : 1
    have hheading : heading? (inherit levels sorted) key = heading? levels key := heading?_inherit
    have hmapped := congrArg (Option.map f) hheading
    rw [heading?, heading?, Option.map_map, Option.map_map] at hmapped
    rw [Table.get?_map, Table.get?_map]
    exact hmapped
  simpa only [Table.values_map] using congrArg Table.values hsame

theorem get?_foldLevels_of_not_mem (hkey : key ∉ sorted.map (·.name)) :
    (sorted.foldl (fun levels other => foldLevel levels finer other.name) levels).get? key =
      levels.get? key := by
  refine List.foldlRecOn sorted _ (motive := fun t : Table String Level => t.get? key = levels.get? key)
    rfl ?_
  intro t h other hother
  refine (get?_foldLevel_of_ne ?_).trans h
  rintro rfl
  exact hkey (List.mem_map_of_mem hother)

theorem get?_inherit_of_not_mem (hkey : key ∉ sorted.map (·.name)) :
    (inherit levels sorted).get? key = levels.get? key := by
  induction sorted generalizing levels with
  | nil => rfl
  | cons level rest ih =>
      have hrest : key ∉ rest.map (·.name) := fun h => hkey (List.mem_cons_of_mem _ h)
      rw [inherit, ih hrest, get?_foldLevels_of_not_mem hrest]

theorem request?_foldLevels (domain : String) (hnodup : (finer :: sorted.map (·.name)).Nodup)
    (hmem : ∀ l ∈ sorted, l.name ∈ levels) {l : SortedLevel} (hl : l ∈ sorted) :
    request? (sorted.foldl (fun levels other => foldLevel levels finer other.name) levels) l.name
        domain =
      join (request? levels finer domain) (request? levels l.name domain) := by
  induction sorted generalizing levels with
  | nil => cases hl
  | cons other rest ih =>
      simp only [List.map_cons, List.nodup_cons, List.mem_cons, not_or] at hnodup
      obtain ⟨⟨hother, hfiner⟩, habsent, hrest⟩ := hnodup
      obtain ⟨hmem_other, hmem_rest⟩ := List.forall_mem_cons.1 hmem
      rw [List.foldl_cons]
      rcases List.mem_cons.1 hl with rfl | hl
      · rw [request?, get?_foldLevels_of_not_mem habsent]
        exact request?_foldLevel domain hmem_other
      · have hne : l.name ≠ other.name := fun h => habsent (h ▸ List.mem_map_of_mem hl)
        have hmem' : ∀ x ∈ rest, x.name ∈ foldLevel levels finer other.name := by
          intro x hx
          rw [mem_iff_heading?, heading?_foldLevel, ← mem_iff_heading?]
          exact hmem_rest x hx
        rw [ih (List.nodup_cons.2 ⟨hfiner, hrest⟩) hmem' hl, request?, get?_foldLevel_of_ne hother,
          request?, get?_foldLevel_of_ne hne, request?, request?]

/-- The entries of the levels after inheritance, when those that remain have already taken in the
entries `before`. -/
theorem map_request?_inherit (domain : String) {before owns : List (Option Domain)}
    (hnodup : (sorted.map (·.name)).Nodup) (hmem : ∀ l ∈ sorted, l.name ∈ levels)
    (hcurrent : sorted.map (fun l => request? levels l.name domain) = owns.map (absorb before)) :
    sorted.map (fun l => request? (inherit levels sorted) l.name domain) = cascade before owns := by
  induction sorted generalizing levels before owns with
  | nil =>
      obtain rfl : owns = [] := by simpa using hcurrent.symm
      rfl
  | cons level rest ih =>
      cases owns with
      | nil => simp at hcurrent
      | cons own owns =>
          obtain ⟨hlevel, hrest⟩ := List.cons.inj hcurrent
          obtain ⟨habsent, hnodup_rest⟩ := List.nodup_cons.1 hnodup
          obtain ⟨-, hmem_rest⟩ := List.forall_mem_cons.1 hmem
          rw [cascade, ← hlevel, List.map_cons, inherit]
          congr 1
          · simp only [request?, get?_inherit_of_not_mem habsent, get?_foldLevels_of_not_mem habsent]
          · refine ih hnodup_rest (fun l hl => ?_) ?_
            · rw [mem_iff_heading?, heading?_foldLevels, ← mem_iff_heading?]
              exact hmem_rest l hl
            · have hjoined := List.map_congr_left fun l hl =>
                request?_foldLevels domain (List.nodup_cons.2 ⟨habsent, hnodup_rest⟩) hmem_rest hl
              have hcurrent := congrArg (List.map (join (request? levels level.name domain))) hrest
              rw [List.map_map, List.map_map] at hcurrent
              rw [hjoined]
              refine hcurrent.trans (List.map_congr_left fun entry _ => ?_)
              exact (Domain.absorb_snoc _ _ _).symm

end Levels

/-- A plan has the same order before and after inheritance. -/
theorem order_inheriting (plan : Plan) : plan.inheriting.order = plan.order := by
  unfold inheriting
  split
  · rfl
  · -- the seconds of a level are those of its frequency
    refine congrArg byFreq (map_values_inherit (fun heading : String × String =>
      (⟨heading.1, seconds plan.name { name := heading.1, freq := heading.2 }⟩ : SortedLevel)))

theorem map_request?_sort {plan sorted : Plan} {order : List SortedLevel} (named : plan.NamedByKey)
    (fresh : plan.inherited = false) (h : plan.sort = .ok (order, sorted)) (domain : String) :
    order.map (fun l => request? sorted.levels l.name domain) =
      cascade [] (order.map (fun l => request? plan.levels l.name domain)) := by
  obtain ⟨valid, rfl, rfl⟩ := sort_eq_ok_iff.1 h
  simp only [inheriting, fresh, Bool.false_eq_true, if_false]
  refine map_request?_inherit domain (nodup_order_names named) (fun l hl => ?_) ?_
  · obtain ⟨level, hget, -⟩ := (mem_order named valid).1 hl
    exact Table.mem_iff.2 ⟨level, hget⟩
  · rw [List.map_map]
    rfl

end Plan

end Cadence
