/-!
# Numbers in digits

The digits of a number are read back by a fold, and a reader of digits stops
where they end.
-/

namespace Cadence

theorem span_append {α : Type} {p : α → Bool} {front rest : List α} (hfront : ∀ a ∈ front, p a)
    (hrest : ∀ a ∈ rest.head?, p a = false) :
    (front ++ rest).takeWhile p = front ∧ (front ++ rest).dropWhile p = rest := by
  have hstop : rest.takeWhile p = [] ∧ rest.dropWhile p = rest := by
    cases rest with
    | nil => exact ⟨rfl, rfl⟩
    | cons a rest =>
        have ha := hrest a rfl
        exact ⟨by simp [ha], by simp [ha]⟩
  constructor
  · rw [List.takeWhile_append_of_pos hfront, hstop.1, List.append_nil]
  · rw [List.dropWhile_append_of_pos hfront, hstop.2]

theorem foldl_digits (cs : List Char) :
    cs.foldl (fun n c => n * 10 + (c.toNat - '0'.toNat)) 0 = Nat.ofDigitChars 10 cs 0 := by
  simp only [Nat.ofDigitChars_eq_foldl, Nat.mul_comm]

theorem foldl_toDigits (n : Nat) :
    (Nat.toDigits 10 n).foldl (fun n c => n * 10 + (c.toNat - '0'.toNat)) 0 = n := by
  rw [foldl_digits, Nat.ofDigitChars_ten_toDigits]

theorem isDigit_of_mem_toDigits {n : Nat} {c : Char} (h : c ∈ Nat.toDigits 10 n) : c.isDigit :=
  Nat.isDigit_of_mem_toDigits (by decide) (by decide) h

end Cadence
