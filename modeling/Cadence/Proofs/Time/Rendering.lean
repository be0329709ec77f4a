import Cadence.Proofs.Text.Digits
import Cadence.Time.Utc
import Mathlib.Algebra.Ring.Nat

/-!
# Instants read back

The written form of an instant reads as the same instant, leap seconds and years
of more than four digits included.
-/

namespace Cadence.Utc

/-! ### Numbers of a fixed width -/

theorem isDigit_of_mem_padded {width n : Nat} {c : Char} (h : c ∈ padded width n) : c.isDigit := by
  rcases List.mem_append.1 h with h | h
  · obtain rfl := List.eq_of_mem_replicate h
    decide
  · exact isDigit_of_mem_toDigits h

theorem foldl_padded (width n : Nat) :
    (padded width n).foldl (fun n c => n * 10 + (c.toNat - '0'.toNat)) 0 = n := by
  rw [foldl_digits, padded, Nat.ofDigitChars_append, Nat.ofDigitChars_replicate_zero, Nat.mul_zero,
    Nat.ofDigitChars_ten_toDigits]

theorem padded_ne_nil (width n : Nat) : padded width n ≠ [] := by simp [padded]

theorem length_padded {width n : Nat} (hwidth : 0 < width) (h : n < 10 ^ width) :
    (padded width n).length = width := by
  have := (Nat.length_toDigits_le_iff (by decide) hwidth).2 h
  simp [padded]
  omega

theorem isBlank_of_isDigit {c : Char} (h : c.isDigit) : Text.isBlank c = false := by
  have hrange : 48 ≤ c.toNat ∧ c.toNat ≤ 57 := Char.isDigit_iff_toNat.1 h
  simp [Text.isBlank]
  omega

theorem trimStart_of_head {c : Char} {rest : List Char} (h : Text.isBlank c = false) :
    Text.trimStart (c :: rest) = c :: rest := by
  simp [Text.trimStart, h]

/-- The number goes on to the end of the field or of the digits. -/
theorem number?_padded {width places n : Nat} {rest : List Char}
    (hwidth : (padded places n).length ≤ width)
    (hstop : (padded places n).length = width ∨ ∀ c ∈ rest.head?, c.isDigit = false) :
    number? width (padded places n ++ rest) = some (n, rest) := by
  have htrim : Text.trimStart (padded places n ++ rest) = padded places n ++ rest := by
    obtain ⟨c, more, hpadded⟩ := List.exists_cons_of_ne_nil (padded_ne_nil places n)
    have hc := isDigit_of_mem_padded (hpadded ▸ List.mem_cons_self : c ∈ padded places n)
    rw [hpadded]
    exact trimStart_of_head (isBlank_of_isDigit hc)
  have hbehind : ∀ c ∈ (rest.take (width - (padded places n).length)).head?, c.isDigit = false := by
    rcases hstop with hfull | hstop
    · simp [hfull]
    · intro c hc
      rw [List.head?_take] at hc
      split at hc
      · simp at hc
      · exact hstop c hc
  have hdigits : ((padded places n ++ rest).take width).takeWhile Char.isDigit = padded places n := by
    rw [List.take_append, List.take_of_length_le hwidth]
    exact (span_append (fun c hc => isDigit_of_mem_padded hc) hbehind).1
  simp only [number?, htrim, hdigits, foldl_padded, List.drop_left, List.isEmpty_iff,
    padded_ne_nil, if_false]

theorem number?_field {width n : Nat} (hwidth : 0 < width) (h : n < 10 ^ width)
    (rest : List Char) : number? width (padded width n ++ rest) = some (n, rest) := by
  have hlength := length_padded hwidth h
  exact number?_padded (by omega) (.inl hlength)

theorem head_padded (width n : Nat) (rest : List Char) :
    (padded width n ++ rest).head?.any Char.isDigit = true := by
  obtain ⟨c, more, hpadded⟩ := List.exists_cons_of_ne_nil (padded_ne_nil width n)
  have hc := isDigit_of_mem_padded (hpadded ▸ List.mem_cons_self : c ∈ padded width n)
  simp [hpadded, hc]

/-! ### Date -/

theorem year?_renderYear (year : Int) (rest : List Char) :
    year? (renderYear year ++ '-' :: rest) = some (year, '-' :: rest) := by
  have hsigned (n : Nat) : (if (padded 4 n ++ '-' :: rest).head?.any Char.isDigit then
      number? (padded 4 n ++ '-' :: rest).length (padded 4 n ++ '-' :: rest) else none) =
      some (n, '-' :: rest) := by
    rw [if_pos (head_padded ..)]
    exact number?_padded (by simp) (.inr (by simp))
  unfold renderYear
  split
  · next hneg =>
      have hvalue : -(year.natAbs : Int) = year := by omega
      rw [List.cons_append, year?, trimStart_of_head (by decide)]
      simp only [hsigned, Option.map_some, hvalue]
  split
  · next hneg hsmall =>
      have hvalue : (year.toNat : Int) = year := by omega
      have hread : number? 4 (padded 4 year.toNat ++ '-' :: rest) = some (year.toNat, '-' :: rest) :=
        number?_field (by decide) (by omega) _
      obtain ⟨c, more, hpadded⟩ := List.exists_cons_of_ne_nil (padded_ne_nil 4 year.toNat)
      have hc := isDigit_of_mem_padded (hpadded ▸ List.mem_cons_self : c ∈ padded 4 year.toNat)
      rw [hpadded, List.cons_append] at hread ⊢
      rw [year?, trimStart_of_head (isBlank_of_isDigit hc)]
      split
      · next hminus => simp [(List.cons.inj hminus).1] at hc
      · next hplus => simp [(List.cons.inj hplus).1] at hc
      · simp only [hread, Option.map_some, hvalue]
  · next hneg hlarge =>
      have hvalue : (year.toNat : Int) = year := by omega
      rw [List.cons_append, year?, trimStart_of_head (by decide)]
      simp only [hsigned, Option.map_some, hvalue]

theorem expect?_self {c : Char} (h : Text.isBlank c = false) (rest : List Char) :
    expect? c (c :: rest) = some rest := by
  simp [expect?, trimStart_of_head h]

theorem ofParts?_date (d : Date) : Date.ofParts? d.year d.month d.day = some d := by
  simp [Date.ofParts?, d.month_mem, d.day_mem]

/-- The years that an instant can have. -/
def InRange (t : Utc) : Prop := -262143 ≤ t.date.year ∧ t.date.year ≤ 262142

theorem date?_renderDate {d : Date} (hyear : -262143 ≤ d.year ∧ d.year ≤ 262142)
    (rest : List Char) : date? (renderDate d ++ rest) = some (d, rest) := by
  have hmonth := d.month_mem
  have hday : d.day < 10 ^ 2 := by
    have := d.day_mem.2
    have : daysIn d.year d.month ≤ 31 := by
      unfold daysIn
      split <;> try split
      all_goals decide
    omega
  rw [renderDate, List.append_assoc, List.cons_append, List.append_assoc, List.cons_append, date?]
  simp only [year?_renderYear, Option.bind_eq_bind, Option.bind_some]
  rw [if_neg (by omega)]
  simp only [expect?_self (by decide : Text.isBlank '-' = false), Option.bind_some,
    number?_field (by decide : 0 < 2) (by omega : d.month < 10 ^ 2),
    number?_field (by decide : 0 < 2) hday, ofParts?_date]
  rfl

/-! ### Time of day -/

theorem fraction?_padded {places n : Nat} (hplaces : 0 < places ∧ places ≤ 9)
    (h : n < 10 ^ places) {rest : List Char} (hrest : ∀ c ∈ rest.head?, c.isDigit = false) :
    fraction? ('.' :: padded places n ++ rest) = some (n * Nat.pow 10 (9 - places), rest) := by
  have hlength := length_padded hplaces.1 h
  have hread : number? 9 (padded places n ++ rest) = some (n, rest) :=
    number?_padded (by omega) (.inr hrest)
  have hdigits : (padded places n ++ rest).takeWhile Char.isDigit = padded places n :=
    (span_append (fun c hc => isDigit_of_mem_padded hc) hrest).1
  rw [List.cons_append, fraction?]
  simp only [head_padded, if_true, hread, hdigits, List.drop_left]
  rw [hlength]
  rfl

theorem fraction?_renderFraction {nanos : Nat} (h : nanos < 1000000000) {rest : List Char}
    (hrest : ∀ c ∈ rest.head?, c.isDigit = false) (hpoint : rest.head? ≠ some '.') :
    fraction? (renderFraction nanos ++ rest) = some (nanos, rest) := by
  unfold renderFraction
  split
  · next hzero =>
      rw [List.nil_append, fraction?, hzero]
      rintro behind rfl
      exact hpoint rfl
  split
  · next hmillis =>
      rw [fraction?_padded (by decide) (by omega) hrest]
      have : nanos / 1000000 * Nat.pow 10 (9 - 3) = nanos := by
        change nanos / 1000000 * 1000000 = nanos
        omega
      rw [this]
  split
  · next hmicros =>
      rw [fraction?_padded (by decide) (by omega) hrest]
      have : nanos / 1000 * Nat.pow 10 (9 - 6) = nanos := by
        change nanos / 1000 * 1000 = nanos
        omega
      rw [this]
  · rw [fraction?_padded (by decide) (by omega) hrest]
    exact congrArg some (Prod.ext (Nat.mul_one nanos) rfl)

theorem time?_render (t : Utc) {rest : List Char}
    (hrest : ∀ c ∈ rest.head?, c.isDigit = false) (hpoint : rest.head? ≠ some '.') :
    time? (renderTime t.second t.nanos ++ (renderFraction (t.nanos % 1000000000) ++ rest)) =
      some ((t.second / 3600, t.second / 60 % 60, t.second % 60 + t.nanos / 1000000000,
        t.nanos % 1000000000), rest) := by
  have hsecond := t.second_lt
  have hnanos := t.nanos_lt
  have hfraction := fraction?_renderFraction (Nat.mod_lt t.nanos (by decide)) hrest hpoint
  rw [renderTime, List.append_assoc, List.cons_append, List.append_assoc, List.cons_append, time?]
  simp only [number?_field (by decide : 0 < 2) (by omega : t.second / 3600 < 10 ^ 2),
    number?_field (by decide : 0 < 2) (by omega : t.second / 60 % 60 < 10 ^ 2),
    number?_field (by decide : 0 < 2)
      (by omega : t.second % 60 + t.nanos / 1000000000 < 10 ^ 2),
    expect?_self (by decide : Text.isBlank ':' = false), Option.bind_eq_bind, Option.bind_some,
    hfraction]
  rw [if_pos (by omega)]
  rfl

theorem ofLocal?_self (t : Utc) :
    ofLocal? t.date (t.second / 3600) (t.second / 60 % 60) (t.second % 60 + t.nanos / 1000000000)
      (t.nanos % 1000000000) 0 = some t := by
  have hsecond := t.second_lt
  have hnanos := t.nanos_lt
  unfold ofLocal?
  extract_lets minute date leap second nanos
  have hminute : minute = (t.second / 60 : Nat) := by omega
  have hdate : date = t.date := by
    simp only [date]
    rw [if_neg (by omega), if_neg (by omega)]
  have hleap : leap = t.nanos / 1000000000 := by
    simp only [leap]
    split <;> omega
  have hsec : second = t.second := by omega
  have hnan : nanos = t.nanos := by omega
  rw [dif_pos (by rw [hsec, hnan]; exact ⟨hsecond, hnanos⟩)]
  obtain ⟨d, s, n, hs, hn⟩ := t
  simp only [Option.some.injEq, mk.injEq]
  exact ⟨hdate, hsec, hnan⟩

/-- The written form of an instant reads as that instant. -/
theorem parse?_render {t : Utc} (h : t.InRange) : parse? t.render = some t := by
  have htext : t.render.toList = renderDate t.date ++ 'T' :: (renderTime t.second t.nanos ++
      (renderFraction (t.nanos % 1000000000) ++ ['Z'])) := by
    simp [render]
  have hdate := date?_renderDate h ('T' :: (renderTime t.second t.nanos ++
    (renderFraction (t.nanos % 1000000000) ++ ['Z'])))
  have htime : time? (renderTime t.second t.nanos ++ (renderFraction (t.nanos % 1000000000) ++
      ['Z'])) = _ := time?_render t (by simp) (by simp)
  have hoffset : offset? ['Z'] = some (0, []) := rfl
  have hblank : Text.trimStart [] = [] := rfl
  rw [parse?, htext, hdate]
  simp [htime, hoffset, hblank, ofLocal?_self]

end Cadence.Utc
