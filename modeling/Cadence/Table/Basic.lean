/-!
Finite maps whose entries stand in ascending key order.

A table is the list of its entries together with the proof that the keys
ascend.  The order is therefore part of the value: two tables that answer every
look-up alike are equal, and whatever is printed from a table comes out sorted.
Keys are texts, compared by code point, or counting numbers.
-/

namespace Cadence

/-- A type of table keys: a decidable strict linear order. -/
class Key (κ : Type) extends LT κ where
  decEq : DecidableEq κ
  decLt : DecidableLT κ
  lt_irrefl : ∀ a : κ, ¬ a < a
  lt_trans : ∀ {a b c : κ}, a < b → b < c → a < c
  eq_or_lt : ∀ {a b : κ}, ¬ a < b → a = b ∨ b < a

namespace Key

instance {κ : Type} [k : Key κ] : DecidableEq κ := k.decEq

instance {κ : Type} [k : Key κ] : DecidableLT κ := k.decLt

instance : Key String where
  decEq := inferInstance
  decLt := inferInstance
  lt_irrefl := String.lt_irrefl
  lt_trans := String.lt_trans
  eq_or_lt {a b} h := by
    by_cases hba : b < a
    · exact Or.inr hba
    · exact Or.inl (String.le_antisymm hba h)

instance : Key Nat where
  decEq := inferInstance
  decLt := inferInstance
  lt_irrefl := Nat.lt_irrefl
  lt_trans := Nat.lt_trans
  eq_or_lt {a b} h := by
    rcases Nat.lt_trichotomy a b with h' | h' | h'
    · exact absurd h' h
    · exact Or.inl h'
    · exact Or.inr h'

end Key

/-- Entries in strictly ascending key order. -/
structure Table (κ α : Type) [Key κ] where
  entries : List (κ × α)
  sorted : entries.Pairwise (fun a b => a.1 < b.1)

namespace Table

variable {κ α β : Type} [Key κ]

instance [DecidableEq α] : DecidableEq (Table κ α) := fun a b =>
  if h : a.entries = b.entries then
    isTrue (by cases a; cases b; cases h; rfl)
  else
    isFalse (fun e => h (congrArg entries e))

def empty : Table κ α := ⟨[], List.Pairwise.nil⟩

instance : EmptyCollection (Table κ α) := ⟨empty⟩

instance : Inhabited (Table κ α) := ⟨empty⟩

/-- The entry list with `k` bound to `v`, in the place the order gives it. -/
def insertEntry (k : κ) (v : α) : List (κ × α) → List (κ × α)
  | [] => [(k, v)]
  | (k', v') :: rest =>
      if k < k' then (k, v) :: (k', v') :: rest
      else if k = k' then (k, v) :: rest
      else (k', v') :: insertEntry k v rest

theorem mem_insertEntry {k : κ} {v : α} {e : κ × α} {entries : List (κ × α)}
    (h : e ∈ insertEntry k v entries) : e = (k, v) ∨ e ∈ entries := by
  induction entries with
  | nil => simpa [insertEntry] using h
  | cons head rest ih =>
      obtain ⟨k', v'⟩ := head
      rw [insertEntry] at h
      split at h
      · simpa using h
      · split at h
        · rcases List.mem_cons.1 h with h | h
          · exact Or.inl h
          · exact Or.inr (List.mem_cons_of_mem _ h)
        · rcases List.mem_cons.1 h with h | h
          · exact Or.inr (h ▸ List.mem_cons_self)
          · exact (ih h).imp id (List.mem_cons_of_mem _)

theorem sorted_insertEntry (k : κ) (v : α) {entries : List (κ × α)}
    (h : entries.Pairwise (fun a b => a.1 < b.1)) :
    (insertEntry k v entries).Pairwise (fun a b => a.1 < b.1) := by
  induction entries with
  | nil => exact List.pairwise_singleton _ _
  | cons head rest ih =>
      obtain ⟨k', v'⟩ := head
      have hrest := List.pairwise_cons.1 h
      rw [insertEntry]
      split
      · next hlt =>
          refine List.pairwise_cons.2 ⟨fun e he => ?_, h⟩
          rcases List.mem_cons.1 he with he | he
          · exact he ▸ hlt
          · exact Key.lt_trans hlt (hrest.1 e he)
      · next hlt =>
          split
          · next heq => exact heq ▸ List.pairwise_cons.2 ⟨hrest.1, hrest.2⟩
          · next heq =>
              refine List.pairwise_cons.2 ⟨fun e he => ?_, ih hrest.2⟩
              rcases mem_insertEntry he with he | he
              · exact he ▸ (Key.eq_or_lt hlt).resolve_left heq
              · exact hrest.1 e he

/-- Binds `k` to `v`, in place of what it was bound to. -/
def insert (t : Table κ α) (k : κ) (v : α) : Table κ α :=
  ⟨insertEntry k v t.entries, sorted_insertEntry k v t.sorted⟩

def get? (t : Table κ α) (k : κ) : Option α := t.entries.lookup k

instance : GetElem? (Table κ α) κ α (fun t k => (t.get? k).isSome) where
  getElem t k h := (t.get? k).get h
  getElem? t k := t.get? k

def contains (t : Table κ α) (k : κ) : Bool := (t.get? k).isSome

instance : Membership κ (Table κ α) := ⟨fun t k => t.contains k⟩

instance (t : Table κ α) (k : κ) : Decidable (k ∈ t) :=
  inferInstanceAs (Decidable (t.contains k = true))

def keys (t : Table κ α) : List κ := t.entries.map (·.1)

def values (t : Table κ α) : List α := t.entries.map (·.2)

def toList (t : Table κ α) : List (κ × α) := t.entries

def size (t : Table κ α) : Nat := t.entries.length

def isEmpty (t : Table κ α) : Bool := t.entries.isEmpty

/-- Keeps the entries that `p` accepts. -/
def filter (t : Table κ α) (p : κ → α → Bool) : Table κ α :=
  ⟨t.entries.filter (fun e => p e.1 e.2), t.sorted.filter _⟩

def erase (t : Table κ α) (k : κ) : Table κ α :=
  t.filter (fun k' _ => k' ≠ k)

/-- Replaces every value by its image under `f`, which also sees the key. -/
def map (t : Table κ α) (f : κ → α → β) : Table κ β where
  entries := t.entries.map (fun e => (e.1, f e.1 e.2))
  sorted := List.pairwise_map.2 t.sorted

/-- Replaces the values that have an image under `f` by it and drops the others. -/
def filterMap (t : Table κ α) (f : κ → α → Option β) : Table κ β where
  entries := t.entries.filterMap (fun e => (f e.1 e.2).map (e.1, ·))
  sorted := by
    refine List.Pairwise.filterMap _ (fun a a' h b hb b' hb' => ?_) t.sorted
    obtain ⟨v, _, rfl⟩ := Option.map_eq_some_iff.1 hb
    obtain ⟨v', _, rfl⟩ := Option.map_eq_some_iff.1 hb'
    exact h

/-- Replaces the value of `k`, if it has one, by its image under `f`. -/
def modify (t : Table κ α) (k : κ) (f : α → α) : Table κ α :=
  match t.get? k with
  | some v => t.insert k (f v)
  | none => t

/-- Binds the pairs from left to right, so the last pair of a key counts. -/
def ofList (pairs : List (κ × α)) : Table κ α :=
  pairs.foldl (fun t e => t.insert e.1 e.2) ∅

end Table

end Cadence
