import Cadence.Json.Decode
import Cadence.Json.Reader
import Cadence.Proofs.Json.Scanning
import Cadence.Table.Lemmas

/-!
# Values read back

The reader makes of the lexemes of a value the value itself and hands it to the
container that is open.  So a printed text reads as the value it was printed
from, and records and maps come out field by field.
-/

namespace Cadence.Json

theorem readStep_firstItem {t : Token} (h : t ≠ .closeBracket) (stack : List Open) :
    readStep (.firstItem stack) t = readStep (.value (.list [] :: stack)) t := by
  cases t <;> first | rfl | contradiction

theorem tokensOf_head (v : Json) :
    ∃ t ts, tokensOf v = t :: ts ∧ t ≠ .closeBracket := by
  rcases v with _ | _ | _ | _ | _ | (_ | _) | (_ | ⟨_, _⟩) <;> rw [tokensOf] <;>
    exact ⟨_, _, rfl, by simp⟩

mutual

theorem read_tokensOf : ∀ (v : Json) (stack : List Open) (rest : List Token),
    (tokensOf v ++ rest).foldlM readStep (.value stack) = rest.foldlM readStep (put v stack)
  | .null, _, _ => by rw [tokensOf]; rfl
  | .bool b, _, _ => by rw [tokensOf]; rfl
  | .number n, _, _ => by rw [tokensOf]; rfl
  | .string s, _, _ => by rw [tokensOf]; rfl
  | .unpaired, _, _ => by rw [tokensOf]; rfl
  | .list [], _, _ => by rw [tokensOf]; rfl
  | .list (item :: items), stack, rest => by
      have hitem := read_tokensOf item (.list [] :: stack) (tokensOfItems items ++ rest)
      have hitems := read_tokensOfItems items [item] stack rest
      obtain ⟨t, ts, htokens, ht⟩ := tokensOf_head item
      rw [tokensOf]
      change (tokensOf item ++ tokensOfItems items ++ rest).foldlM readStep (.firstItem stack) = _
      rw [List.append_assoc]
      rw [htokens, List.cons_append, List.foldlM_cons] at hitem ⊢
      rw [readStep_firstItem ht, hitem]
      exact hitems
  | .object [], _, _ => by rw [tokensOf]; rfl
  | .object ((name, value) :: fields), stack, rest => by
      have hvalue := read_tokensOf value (.field name [] :: stack) (tokensOfFields fields ++ rest)
      have hfields := read_tokensOfFields fields [(name, value)] stack rest
      rw [tokensOf]
      change (tokensOf value ++ tokensOfFields fields ++ rest).foldlM readStep
        (.value (.field name [] :: stack)) = _
      rw [List.append_assoc, hvalue]
      exact hfields

theorem read_tokensOfItems : ∀ (items before : List Json) (stack : List Open) (rest : List Token),
    (tokensOfItems items ++ rest).foldlM readStep (.behind (.list before :: stack)) =
      rest.foldlM readStep (put (.list (before.reverse ++ items)) stack)
  | [], before, stack, rest => by
      rw [tokensOfItems, List.append_nil]
      rfl
  | item :: items, before, stack, rest => by
      have hitem := read_tokensOf item (.list before :: stack) (tokensOfItems items ++ rest)
      have hitems := read_tokensOfItems items (item :: before) stack rest
      rw [tokensOfItems]
      change (tokensOf item ++ tokensOfItems items ++ rest).foldlM readStep
        (.value (.list before :: stack)) = _
      rw [List.append_assoc, hitem]
      rw [List.reverse_cons, List.append_assoc] at hitems
      exact hitems

theorem read_tokensOfFields : ∀ (fields before : List (String × Json)) (stack : List Open)
    (rest : List Token),
    (tokensOfFields fields ++ rest).foldlM readStep (.behind (.object before :: stack)) =
      rest.foldlM readStep (put (.object (before.reverse ++ fields)) stack)
  | [], before, stack, rest => by
      rw [tokensOfFields, List.append_nil]
      rfl
  | (name, value) :: fields, before, stack, rest => by
      have hvalue := read_tokensOf value (.field name before :: stack)
        (tokensOfFields fields ++ rest)
      have hfields := read_tokensOfFields fields ((name, value) :: before) stack rest
      rw [tokensOfFields]
      change (tokensOf value ++ tokensOfFields fields ++ rest).foldlM readStep
        (.value (.field name before :: stack)) = _
      rw [List.append_assoc, hvalue]
      rw [List.reverse_cons, List.append_assoc] at hfields
      exact hfields

end

/-- What is printed for a value reads as that value. -/
theorem parse?_render {v : Json} (h : v.Printable) : parse? (v.render ++ "\n") = some v := by
  have hend : scan ['\n'] = some [] := by rw [scan, if_pos (by decide), scan]
  have hstop : isNumberChar '\n' = false := by decide
  have hscan := lexes_renderChars v h ['\n'] (by simpa using hstop)
  rw [hend, Option.map_some, List.append_nil] at hscan
  have hread := read_tokensOf v [] []
  rw [List.append_nil] at hread
  have htext : (v.render ++ "\n").toList = v.renderChars ++ ['\n'] := by simp [render]
  simp [parse?, htext, hscan, hread, put]

/-! ### On one line -/

theorem newline_not_mem_escapeChar (c : Char) : '\n' ∉ escapeChar c := by
  unfold escapeChar
  split
  case h_8 hnewline _ _ =>
    split
    · simp
    · simpa using Ne.symm hnewline
  all_goals decide

theorem newline_not_mem_quote (s : String) : '\n' ∉ quote s := by
  intro h
  simp only [quote, List.mem_append, List.mem_cons, List.mem_flatMap] at h
  obtain (h | ⟨c, -, h⟩) | h := h
  · simp at h
  · exact newline_not_mem_escapeChar c h
  · simp at h

mutual

theorem newline_not_mem_renderChars : ∀ v : Json, v.Printable → '\n' ∉ v.renderChars
  | .null, _ => by
      rw [renderChars]
      decide
  | .bool true, _ => by
      rw [renderChars]
      decide
  | .bool false, _ => by
      rw [renderChars]
      decide
  | .number n, h => by
      rw [Printable] at h
      rw [renderChars]
      intro hmem
      exact absurd (n.isNumberChar_of_mem_render h hmem) (by decide)
  | .string s, _ => by
      rw [renderChars]
      exact newline_not_mem_quote s
  | .unpaired, h => by simp [Printable] at h
  | .list [], _ => by
      rw [renderChars]
      decide
  | .list (item :: items), h => by
      rw [Printable, PrintableItems] at h
      have hitem := newline_not_mem_renderChars item h.1
      have hitems := newline_not_mem_renderItems items h.2
      simp [renderChars, hitem, hitems]
  | .object [], _ => by
      rw [renderChars]
      decide
  | .object ((name, value) :: fields), h => by
      rw [Printable, PrintableFields] at h
      have hvalue := newline_not_mem_renderChars value h.1
      have hfields := newline_not_mem_renderFields fields h.2
      simp [renderChars, newline_not_mem_quote, hvalue, hfields]

theorem newline_not_mem_renderItems : ∀ items, PrintableItems items → '\n' ∉ renderItems items
  | [], _ => by simp [renderItems]
  | item :: items, h => by
      rw [PrintableItems] at h
      have hitem := newline_not_mem_renderChars item h.1
      have hitems := newline_not_mem_renderItems items h.2
      simp [renderItems, hitem, hitems]

theorem newline_not_mem_renderFields :
    ∀ fields, PrintableFields fields → '\n' ∉ renderFields fields
  | [], _ => by simp [renderFields]
  | (name, value) :: fields, h => by
      rw [PrintableFields] at h
      have hvalue := newline_not_mem_renderChars value h.1
      have hfields := newline_not_mem_renderFields fields h.2
      simp [renderFields, newline_not_mem_quote, hvalue, hfields]

end

/-! ### Lists, maps and records -/

theorem printable_string (s : String) : (Json.string s).Printable := by
  rw [Printable] <;> simp

theorem printable_ofFloat (x : Float) : (ofFloat x).Printable := by
  unfold ofFloat
  split
  · rw [Printable]
    exact JsonNumber.literal_ofDecimal _ _
  · rw [Printable] <;> simp

theorem printable_list {items : List Json} :
    (Json.list items).Printable ↔ ∀ item ∈ items, item.Printable := by
  rw [Printable]
  induction items with
  | nil => simp [PrintableItems]
  | cons item items ih => rw [PrintableItems, ih, List.forall_mem_cons]

theorem printable_object {fields : List (String × Json)} :
    (Json.object fields).Printable ↔ ∀ field ∈ fields, field.2.Printable := by
  rw [Printable]
  induction fields with
  | nil => simp [PrintableFields]
  | cons field fields ih => rw [PrintableFields, ih, List.forall_mem_cons]

theorem printable_ofTable {α : Type} {encode : α → Json} {t : Table String α}
    (h : ∀ v ∈ t.values, (encode v).Printable) : (ofTable encode t).Printable := by
  refine printable_object.2 fun field hfield => ?_
  obtain ⟨e, he, rfl⟩ := List.mem_map.1 hfield
  exact h e.2 (List.mem_map_of_mem he)

theorem mapM_of_forall {α β : Type} {f : β → Option α} {g : α → β} {as : List α}
    (h : ∀ a ∈ as, f (g a) = some a) : (as.map g).mapM f = some as := by
  induction as with
  | nil => rfl
  | cons a as ih =>
      obtain ⟨ha, has⟩ := List.forall_mem_cons.1 h
      simp [ha, ih has]

theorem table?_ofTable {α : Type} {decode : Json → Option α} {encode : α → Json}
    {t : Table String α} (h : ∀ v ∈ t.values, decode (encode v) = some v) :
    table? decode (ofTable encode t) = some t := by
  rw [ofTable, table?, mapM_of_forall]
  · exact congrArg some t.ofList_toList
  · intro e he
    dsimp only
    rw [h e.2 (List.mem_map_of_mem he)]
    rfl

theorem mapM_eq_none {α β : Type} {f : α → Option β} {as : List α} {a : α} (ha : a ∈ as)
    (h : f a = none) : as.mapM f = none := by
  induction as with
  | nil => simp at ha
  | cons b as ih =>
      rcases List.mem_cons.1 ha with rfl | ha
      · simp [h]
      · cases hb : f b with
        | none => simp [hb]
        | some _ => simp [hb, ih ha]

theorem table?_ofTable_eq_none {α β : Type} {decode : Json → Option β} {encode : α → Json}
    {t : Table String α} {v : α} (hv : v ∈ t.values) (h : decode (encode v) = none) :
    table? decode (ofTable encode t) = none := by
  obtain ⟨e, he, rfl⟩ := List.mem_map.1 hv
  rw [ofTable, table?, mapM_eq_none (a := (e.1, encode e.2)) ?mem ?undecoded]
  case mem => exact List.mem_map_of_mem he
  case undecoded =>
    dsimp only
    rw [h]
    rfl
  rfl

theorem table?_texts (t : Table String String) : table? text? (ofTable .string t) = some t :=
  table?_ofTable fun _ _ => rfl

end Cadence.Json
