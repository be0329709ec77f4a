import Cadence.Table.Basic

/-!
What the operations on a table do to its look-ups.

A table is known by its look-ups: tables that agree on all of them are equal.
-/

namespace Cadence.Table

variable {κ α β : Type} [Key κ]

@[simp] theorem getElem?_eq_get? (t : Table κ α) (k : κ) : t[k]? = t.get? k := rfl

theorem lookup_cons_ite (e : κ × α) (rest : List (κ × α)) (k : κ) :
    (e :: rest).lookup k = if k = e.1 then some e.2 else rest.lookup k := by
  rw [List.lookup_cons]
  by_cases same : k = e.1
  · rw [if_pos same, beq_iff_eq.2 same]
  · rw [if_neg same, beq_false_of_ne same]

theorem lookup_eq_some_iff {entries : List (κ × α)}
    (sorted : entries.Pairwise (fun a b => a.1 < b.1)) {k : κ} {v : α} :
    entries.lookup k = some v ↔ (k, v) ∈ entries := by
  induction entries with
  | nil => simp
  | cons head rest ih =>
      obtain ⟨k', v'⟩ := head
      have parts := List.pairwise_cons.1 sorted
      rw [lookup_cons_ite]
      by_cases same : k = k'
      · subst same
        have absent : (k, v) ∉ rest := fun mem => Key.lt_irrefl k (parts.1 _ mem)
        simp [absent, eq_comm]
      · simp [same, ih parts.2]

theorem get?_eq_some_iff {t : Table κ α} {k : κ} {v : α} :
    t.get? k = some v ↔ (k, v) ∈ t.toList :=
  lookup_eq_some_iff t.sorted

theorem get?_eq_none_iff {t : Table κ α} {k : κ} : t.get? k = none ↔ k ∉ t.keys := by
  constructor
  · intro absent mem
    obtain ⟨⟨k', v⟩, listed, rfl⟩ := List.mem_map.1 mem
    rw [get?_eq_some_iff.2 listed] at absent
    contradiction
  · intro absent
    cases found : t.get? k with
    | none => rfl
    | some v => exact absurd (List.mem_map_of_mem (get?_eq_some_iff.1 found)) absent

theorem contains_iff {t : Table κ α} {k : κ} : t.contains k = true ↔ k ∈ t.keys := by
  rw [contains, Option.isSome_iff_ne_none, ne_eq, get?_eq_none_iff, Classical.not_not]

theorem pairwise_keys (t : Table κ α) : t.keys.Pairwise (· < ·) :=
  List.pairwise_map.2 t.sorted

theorem nodup_keys (t : Table κ α) : t.keys.Nodup := by
  refine List.Pairwise.imp (fun {a b} lt same => ?_) t.pairwise_keys
  subst same
  exact Key.lt_irrefl a lt

/-- Ascending lists with the same entries are equal. -/
theorem entries_eq_of_mem_iff {a b : List (κ × α)}
    (sorted_a : a.Pairwise (fun a b => a.1 < b.1)) (sorted_b : b.Pairwise (fun a b => a.1 < b.1))
    (same : ∀ e, e ∈ a ↔ e ∈ b) : a = b := by
  induction a generalizing b with
  | nil =>
      cases b with
      | nil => rfl
      | cons head rest => exact absurd ((same head).2 List.mem_cons_self) List.not_mem_nil
  | cons head rest ih =>
      cases b with
      | nil => exact absurd ((same head).1 List.mem_cons_self) List.not_mem_nil
      | cons head' rest' =>
          have parts := List.pairwise_cons.1 sorted_a
          have parts' := List.pairwise_cons.1 sorted_b
          have heads : head = head' := by
            rcases List.mem_cons.1 ((same head).1 List.mem_cons_self) with eq | mem
            · exact eq
            · rcases List.mem_cons.1 ((same head').2 List.mem_cons_self) with eq | mem'
              · exact eq.symm
              · exact absurd (Key.lt_trans (parts'.1 _ mem) (parts.1 _ mem')) (Key.lt_irrefl _)
          subst heads
          have tails : ∀ e, e ∈ rest ↔ e ∈ rest' := by
            intro e
            constructor
            · intro mem
              rcases List.mem_cons.1 ((same e).1 (List.mem_cons_of_mem _ mem)) with eq | mem'
              · exact absurd (eq ▸ parts.1 _ mem) (Key.lt_irrefl _)
              · exact mem'
            · intro mem
              rcases List.mem_cons.1 ((same e).2 (List.mem_cons_of_mem _ mem)) with eq | mem'
              · exact absurd (eq ▸ parts'.1 _ mem) (Key.lt_irrefl _)
              · exact mem'
          rw [ih parts.2 parts'.2 tails]

@[ext] theorem ext_get? {a b : Table κ α} (same : ∀ k, a.get? k = b.get? k) : a = b := by
  obtain ⟨entries, sorted⟩ := a
  obtain ⟨entries', sorted'⟩ := b
  have eq : entries = entries' :=
    entries_eq_of_mem_iff sorted sorted' (fun (k, v) => by
      rw [← lookup_eq_some_iff sorted, ← lookup_eq_some_iff sorted']
      have agree : entries.lookup k = entries'.lookup k := same k
      rw [agree])
  subst eq
  rfl

@[simp] theorem get?_empty (k : κ) : (∅ : Table κ α).get? k = none := rfl

theorem lookup_insertEntry (k : κ) (v : α) (entries : List (κ × α)) (k' : κ) :
    (insertEntry k v entries).lookup k' = if k' = k then some v else entries.lookup k' := by
  induction entries with
  | nil => rw [insertEntry, lookup_cons_ite]
  | cons head rest ih =>
      obtain ⟨k₀, v₀⟩ := head
      rw [insertEntry]
      split
      · rw [lookup_cons_ite]
      · split
        · next same₀ =>
            subst same₀
            rw [lookup_cons_ite, lookup_cons_ite]
            by_cases same : k' = k
            · rw [if_pos same, if_pos same]
            · rw [if_neg same, if_neg same, if_neg same]
        · next other =>
            rw [lookup_cons_ite, lookup_cons_ite, ih]
            by_cases same : k' = k₀
            · subst same
              rw [if_pos rfl, if_neg (Ne.symm other), if_pos rfl]
            · rw [if_neg same, if_neg same]

theorem get?_insert (t : Table κ α) (k : κ) (v : α) (k' : κ) :
    (t.insert k v).get? k' = if k' = k then some v else t.get? k' :=
  lookup_insertEntry k v t.entries k'

@[simp] theorem get?_insert_self (t : Table κ α) (k : κ) (v : α) :
    (t.insert k v).get? k = some v := by
  rw [get?_insert, if_pos rfl]

theorem get?_filter (t : Table κ α) (p : κ → α → Bool) (k : κ) :
    (t.filter p).get? k = (t.get? k).filter (p k) := by
  apply Option.ext
  intro v
  rw [get?_eq_some_iff, Option.filter_eq_some_iff, get?_eq_some_iff, toList, filter,
    List.mem_filter]
  rfl

theorem get?_erase (t : Table κ α) (k k' : κ) :
    (t.erase k).get? k' = if k' = k then none else t.get? k' := by
  rw [erase, get?_filter]
  by_cases same : k' = k
  · simp [same]
  · cases found : t.get? k' <;> simp [same]

theorem get?_of_get?_erase {t : Table κ α} {k k' : κ} {v : α} (h : (t.erase k).get? k' = some v) :
    t.get? k' = some v := by
  rw [get?_erase] at h
  split at h
  · contradiction
  · exact h

theorem get?_map (t : Table κ α) (f : κ → α → β) (k : κ) :
    (t.map f).get? k = (t.get? k).map (f k) := by
  apply Option.ext
  intro v
  rw [get?_eq_some_iff, Option.map_eq_some_iff]
  constructor
  · intro mem
    obtain ⟨⟨k', v'⟩, listed, eq⟩ := List.mem_map.1 mem
    cases eq
    exact ⟨v', get?_eq_some_iff.2 listed, rfl⟩
  · rintro ⟨v', found, rfl⟩
    exact List.mem_map.2 ⟨(k, v'), get?_eq_some_iff.1 found, rfl⟩

theorem get?_filterMap (t : Table κ α) (f : κ → α → Option β) (k : κ) :
    (t.filterMap f).get? k = (t.get? k).bind (f k) := by
  apply Option.ext
  intro v
  rw [get?_eq_some_iff, Option.bind_eq_some_iff]
  constructor
  · intro mem
    obtain ⟨⟨k', v'⟩, listed, eq⟩ := List.mem_filterMap.1 mem
    obtain ⟨w, image, eq⟩ := Option.map_eq_some_iff.1 eq
    cases eq
    exact ⟨v', get?_eq_some_iff.2 listed, image⟩
  · rintro ⟨v', found, image⟩
    exact List.mem_filterMap.2
      ⟨(k, v'), get?_eq_some_iff.1 found, Option.map_eq_some_iff.2 ⟨v, image, rfl⟩⟩

theorem get?_modify (t : Table κ α) (k : κ) (f : α → α) (k' : κ) :
    (t.modify k f).get? k' = if k' = k then (t.get? k).map f else t.get? k' := by
  rw [modify]
  cases found : t.get? k with
  | none =>
      by_cases same : k' = k
      · simp [same, found]
      · simp [same]
  | some v =>
      by_cases same : k' = k <;> simp [get?_insert, same]

theorem mem_keys_insert {t : Table κ α} {k k' : κ} {v : α} :
    k' ∈ (t.insert k v).keys ↔ k' = k ∨ k' ∈ t.keys := by
  rw [← contains_iff, ← contains_iff, contains, contains, get?_insert]
  by_cases same : k' = k <;> simp [same]

theorem mem_iff {t : Table κ α} {k : κ} : k ∈ t ↔ ∃ v, t.get? k = some v :=
  Option.isSome_iff_exists

theorem mem_keys {t : Table κ α} {k : κ} : k ∈ t.keys ↔ k ∈ t :=
  contains_iff.symm

theorem mem_insert {t : Table κ α} {k k' : κ} {v : α} : k' ∈ t.insert k v ↔ k' = k ∨ k' ∈ t := by
  rw [← mem_keys, mem_keys_insert, mem_keys]

theorem mem_values {t : Table κ α} {v : α} : v ∈ t.values ↔ ∃ k, t.get? k = some v := by
  constructor
  · intro mem
    obtain ⟨⟨k, v⟩, listed, rfl⟩ := List.mem_map.1 mem
    exact ⟨k, get?_eq_some_iff.2 listed⟩
  · rintro ⟨k, found⟩
    exact List.mem_map.2 ⟨(k, v), get?_eq_some_iff.1 found, rfl⟩

theorem countP_values (t : Table κ α) (p : α → Bool) :
    t.values.countP p = t.keys.countP (fun k => (t.get? k).any p) := by
  rw [values, keys, List.countP_map, List.countP_map]
  refine List.countP_congr (fun e he => ?_)
  simp [get?_eq_some_iff.2 he]

/-- Of the values of a table one is replaced by another. -/
theorem countP_values_insert {t : Table κ α} {k : κ} {v : α} (found : t.get? k = some v) (w : α)
    (p : α → Bool) :
    (t.insert k w).values.countP p + (if p v then 1 else 0) =
      t.values.countP p + (if p w then 1 else 0) := by
  obtain ⟨entries, sorted⟩ := t
  change ((insertEntry k w entries).map (·.2)).countP p + _ = (entries.map (·.2)).countP p + _
  have listed : (k, v) ∈ entries := (lookup_eq_some_iff sorted).1 found
  induction entries with
  | nil => contradiction
  | cons head rest ih =>
      obtain ⟨k', v'⟩ := head
      obtain ⟨first, sorted'⟩ := List.pairwise_cons.1 sorted
      rcases List.mem_cons.1 listed with same | behind
      · cases same
        simp only [insertEntry, if_neg (Key.lt_irrefl k), if_true, List.map_cons,
          List.countP_cons]
        omega
      · have lt : k' < k := first _ behind
        have other : k ≠ k' := fun same => Key.lt_irrefl k' (same ▸ lt)
        have not_lt : ¬ k < k' := fun gt => Key.lt_irrefl k (Key.lt_trans gt lt)
        have rest_eq := ih sorted' ((lookup_eq_some_iff sorted').2 behind) behind
        simp only [insertEntry, if_neg not_lt, if_neg other, List.map_cons, List.countP_cons]
        omega

theorem isEmpty_iff {t : Table κ α} : t.isEmpty = true ↔ t = ∅ := by
  constructor
  · intro empty
    obtain ⟨entries, sorted⟩ := t
    obtain rfl : entries = [] := List.isEmpty_iff.1 empty
    rfl
  · rintro rfl
    rfl

@[simp] theorem keys_map (t : Table κ α) (f : κ → α → β) : (t.map f).keys = t.keys := by
  simp [keys, map]

/-- The keys of a table are known by which they are. -/
theorem keys_eq_of_mem_iff {a : Table κ α} {b : Table κ β} (same : ∀ k, k ∈ a ↔ k ∈ b) :
    a.keys = b.keys := by
  have units : a.map (fun _ _ => ()) = b.map (fun _ _ => ()) := by
    ext k : 1
    have agree := same k
    simp only [mem_iff, ← Option.isSome_iff_exists] at agree
    rw [get?_map, get?_map]
    cases found : a.get? k <;> cases found' : b.get? k <;> simp [found, found'] at agree ⊢
  rw [← keys_map a (fun _ _ => ()), units, keys_map]

theorem values_map (t : Table κ α) (f : α → β) :
    (t.map (fun _ v => f v)).values = t.values.map f := by
  simp [values, map]

@[simp] theorem isEmpty_map (t : Table κ α) (f : κ → α → β) : (t.map f).isEmpty = t.isEmpty := by
  simp [isEmpty, map]

@[simp] theorem contains_map (t : Table κ α) (f : κ → α → β) (k : κ) :
    (t.map f).contains k = t.contains k := by
  rw [contains, contains, get?_map, Option.isSome_map]

theorem map_map {γ : Type} (t : Table κ α) (f : α → β) (g : β → γ) :
    (t.map (fun _ v => f v)).map (fun _ v => g v) = t.map (fun _ v => g (f v)) := by
  ext k : 1
  rw [get?_map, get?_map, get?_map, Option.map_map]
  rfl

theorem map_insert (t : Table κ α) (f : α → β) (k : κ) (v : α) :
    (t.insert k v).map (fun _ v => f v) = (t.map (fun _ v => f v)).insert k (f v) := by
  ext k' : 1
  rw [get?_map, get?_insert, get?_insert, get?_map]
  split <;> rfl

theorem map_erase (t : Table κ α) (f : α → β) (k : κ) :
    (t.erase k).map (fun _ v => f v) = (t.map (fun _ v => f v)).erase k := by
  ext k' : 1
  rw [get?_map, get?_erase, get?_erase, get?_map]
  split <;> rfl

theorem map_filter (t : Table κ α) (f : α → β) (p : κ → Bool) :
    (t.filter (fun k _ => p k)).map (fun _ v => f v) =
      (t.map (fun _ v => f v)).filter (fun k _ => p k) := by
  ext k : 1
  rw [get?_map, get?_filter, get?_filter, get?_map]
  cases t.get? k <;> cases p k <;> rfl

theorem filterMap_map {γ : Type} (t : Table κ α) (f : α → β) (g : β → Option γ) :
    (t.map (fun _ v => f v)).filterMap (fun _ v => g v) = t.filterMap (fun _ v => g (f v)) := by
  ext k : 1
  rw [get?_filterMap, get?_map, get?_filterMap]
  cases t.get? k <;> rfl

/-- Of the pairs of a key the last one counts. -/
theorem get?_ofList (pairs : List (κ × α)) (k : κ) :
    (ofList pairs).get? k = pairs.reverse.lookup k := by
  have bind : ∀ (t : Table κ α), (pairs.foldl (fun t e => t.insert e.1 e.2) t).get? k =
      (pairs.reverse.lookup k).or (t.get? k) := by
    induction pairs with
    | nil => intro t; rfl
    | cons e rest ih =>
        intro t
        rw [List.foldl_cons, ih, List.reverse_cons, List.lookup_append, get?_insert]
        cases rest.reverse.lookup k with
        | some v => rfl
        | none =>
            rw [lookup_cons_ite]
            by_cases same : k = e.1 <;> simp [same]
  rw [ofList, bind, get?_empty, Option.or_none]

/-- Pairs that say what a table says, and leave out no key of it, make up the table. -/
theorem ofList_eq_of_forall {pairs : List (κ × α)} {t : Table κ α}
    (pairs_of : ∀ e ∈ pairs, t.get? e.1 = some e.2) (keys_of : ∀ k ∈ t.keys, k ∈ pairs.map (·.1)) :
    ofList pairs = t := by
  ext k : 1
  rw [get?_ofList]
  cases found : pairs.reverse.lookup k with
  | none =>
      rw [eq_comm, get?_eq_none_iff]
      intro mem
      obtain ⟨e, listed, rfl⟩ := List.mem_map.1 (keys_of k mem)
      simpa using List.lookup_eq_none_iff.1 found e (List.mem_reverse.2 listed)
  | some v =>
      obtain ⟨before, behind, split, -⟩ := List.lookup_eq_some_iff.1 found
      have listed : (k, v) ∈ pairs := List.mem_reverse.1 (by rw [split]; simp)
      exact (pairs_of _ listed).symm

theorem ofList_toList (t : Table κ α) : ofList t.toList = t :=
  ofList_eq_of_forall (fun _ listed => get?_eq_some_iff.2 listed) (fun _ mem => mem)

end Cadence.Table
