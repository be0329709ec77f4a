import Cadence.Decimal.Shortest
import Mathlib.Algebra.Order.Field.Power
import Mathlib.Algebra.Order.Field.Rat
import Mathlib.Data.Nat.Cast.Order.Ring
import Mathlib.Tactic.FieldSimp
import Mathlib.Tactic.Linarith
import Mathlib.Tactic.Positivity
import Mathlib.Tactic.Ring

/-!
# Shortest decimals tell doubles apart

The search for the shortest decimal ends with one that rounds to the double.  The
intervals in which decimals round to different doubles have no point in common,
since two that touch are not both closed.
-/

namespace Cadence.Decimal

/-- The number that a decimal stands for. -/
def value (d : Decimal) : ℚ := d.digits * 10 ^ d.exponent

theorem value_trim (d : Decimal) (fuel : Nat) : (d.trim fuel).value = d.value := by
  induction fuel generalizing d with
  | zero => rfl
  | succ fuel ih =>
      rw [trim]
      split
      · next h =>
          have hdigits : (d.digits : ℚ) = (d.digits / 10 : Nat) * 10 := by
            exact_mod_cast (Nat.div_mul_cancel (Nat.dvd_of_mod_eq_zero h.1)).symm
          rw [ih, value, value, hdigits, zpow_add_one₀ (by norm_num)]
          ring
      · rfl

/-! ### The search -/

/-- A power as a quotient of two that count. -/
theorem zpow_mul_pow {b : ℚ} (hb : b ≠ 0) (e : Int) : b ^ e * b ^ (-e).toNat = b ^ e.toNat := by
  rw [← zpow_natCast, ← zpow_natCast, ← zpow_add₀ hb]
  congr 1
  omega

namespace Interval

variable {i : Interval} {e : Int} {n : Nat}

/-- The interval as one of numbers. -/
structure Contains (i : Interval) (x : ℚ) : Prop where
  low_le : i.low ≤ x * i.unit
  le_high : x * i.unit ≤ i.high
  inside : i.closed = false → i.low < x * i.unit ∧ x * i.unit < i.high

theorem contains_of_holds {value : Nat}
    (h : ({ i with
      low := i.low * Nat.pow 10 (-e).toNat
      value := value
      high := i.high * Nat.pow 10 (-e).toNat } : Interval).holds
        (n * (i.unit * Nat.pow 10 e.toNat)) = true) : i.Contains (n * 10 ^ e) := by
  have hpos : (0 : ℚ) < (Nat.pow 10 (-e).toNat : Nat) := by
    exact_mod_cast Nat.pow_pos (n := (-e).toNat) (by decide : 0 < 10)
  have hscaled : (n * 10 ^ e * i.unit : ℚ) * (Nat.pow 10 (-e).toNat : Nat) =
      (n * (i.unit * Nat.pow 10 e.toNat) : Nat) := by
    have := zpow_mul_pow (by norm_num : (10 : ℚ) ≠ 0) e
    push_cast [Nat.pow_eq]
    rw [← this]
    ring
  generalize Nat.pow 10 (-e).toNat = down at *
  generalize n * (i.unit * Nat.pow 10 e.toNat) = point at *
  have hle {low : Nat} (h : low * down ≤ point) : (low : ℚ) ≤ n * 10 ^ e * i.unit :=
    le_of_mul_le_mul_right (by rw [hscaled]; exact_mod_cast h) hpos
  have hge {high : Nat} (h : point ≤ high * down) : (n * 10 ^ e * i.unit : ℚ) ≤ high :=
    le_of_mul_le_mul_right (by rw [hscaled]; exact_mod_cast h) hpos
  have hlt {low : Nat} (h : low * down < point) : (low : ℚ) < n * 10 ^ e * i.unit :=
    lt_of_mul_lt_mul_right (by rw [hscaled]; exact_mod_cast h) hpos.le
  have hgt {high : Nat} (h : point < high * down) : (n * 10 ^ e * i.unit : ℚ) < high :=
    lt_of_mul_lt_mul_right (by rw [hscaled]; exact_mod_cast h) hpos.le
  cases hclosed : i.closed with
  | true =>
      simp only [holds, hclosed, if_true, Bool.and_eq_true, decide_eq_true_eq] at h
      exact ⟨hle h.1, hge h.2, by simp [hclosed]⟩
  | false =>
      simp only [holds, hclosed, Bool.false_eq_true, if_false, Bool.and_eq_true,
        decide_eq_true_eq] at h
      exact ⟨(hlt h.1).le, (hgt h.2).le, fun _ => ⟨hlt h.1, hgt h.2⟩⟩

theorem contains_of_hit? (h : i.hit? e = some n) : i.Contains (n * 10 ^ e) := by
  unfold hit? at h
  extract_lets spacing scaled value floor inside at h
  have hcontains : ∀ k, inside k = true → i.Contains (k * 10 ^ e) := fun k hk => contains_of_holds hk
  cases hfloor : inside floor <;> cases hceil : inside (floor + 1) <;>
    simp only [hfloor, hceil] at h
  · contradiction
  · obtain rfl := Option.some.inj h
    exact hcontains _ hceil
  · obtain rfl := Option.some.inj h
    exact hcontains _ hfloor
  · split at h
    · obtain rfl := Option.some.inj h
      exact hcontains _ hfloor
    · obtain rfl := Option.some.inj h
      exact hcontains _ hceil

/-- The grid has a point above the value if it is fine enough. -/
theorem isSome_hit? (hlow : i.low ≤ i.value) (hunit : 0 < i.unit)
    (hfine : i.unit * Nat.pow 10 e.toNat < (i.high - i.value) * Nat.pow 10 (-e).toNat) :
    (i.hit? e).isSome := by
  unfold hit?
  extract_lets spacing scaled value floor inside
  have hceil : inside (floor + 1) = true := by
    have hspacing : 0 < spacing := Nat.mul_pos hunit (Nat.pow_pos (by decide))
    have hbelow : floor * spacing ≤ value := Nat.div_mul_le_self _ _
    have habove : value < (floor + 1) * spacing := by
      rw [Nat.mul_comm]
      exact Nat.lt_mul_div_succ value hspacing
    have hlow : scaled i.low < (floor + 1) * spacing :=
      lt_of_le_of_lt (Nat.mul_le_mul_right _ hlow) habove
    have hhigh : (floor + 1) * spacing < scaled i.high := by
      have hgap : spacing < scaled i.high - scaled i.value := by
        rw [← Nat.sub_mul]
        exact hfine
      rw [Nat.add_mul, Nat.one_mul]
      omega
    simp only [inside, holds]
    split <;> simp [hlow, hhigh, hlow.le, hhigh.le]
  rw [hceil]
  cases inside floor with
  | false => rfl
  | true =>
      dsimp only
      split <;> rfl

theorem search_eq_some {tries : Nat} {d : Decimal} (h : i.search e tries = some d) :
    i.Contains d.value := by
  induction tries generalizing e with
  | zero => simp [search] at h
  | succ tries ih =>
      rw [search] at h
      split at h
      · next hhit =>
          obtain rfl := Option.some.inj h
          exact contains_of_hit? hhit
      · exact ih h

theorem isSome_search {tries k : Nat} (hk : k < tries) (h : (i.hit? (e - k)).isSome) :
    (i.search e tries).isSome := by
  induction tries generalizing e k with
  | zero => omega
  | succ tries ih =>
      rw [search]
      split
      · rfl
      · next hmiss =>
          obtain _ | k := k
          · simp [hmiss] at h
          · refine ih (k := k) (by omega) ?_
            rwa [show e - 1 - (k : Int) = e - (k + 1 : Nat) by omega]

end Interval

/-! ### The interval of a double -/

/-- What the bits of a finite double can say. -/
structure Canonical (mantissa : Nat) (exponent : Int) : Prop where
  mantissa_lt : mantissa < 2 ^ 53
  exponent_ge : -1074 ≤ exponent
  normal : mantissa < 2 ^ 52 → exponent = -1074

variable {m m' : Nat} {q q' : Int} {x : ℚ}

/-- Quarters of a step below the double that still round to it. -/
def quartersBelow (m : Nat) (q : Int) : Nat := if m = 2 ^ 52 ∧ -1074 < q then 1 else 2

theorem scale_around (q : Int) :
    ((Nat.pow 2 (q - 2).toNat : Nat) : ℚ) = 2 ^ (q - 2) * (Nat.pow 2 (2 - q).toNat : Nat) := by
  have := zpow_mul_pow (by norm_num : (2 : ℚ) ≠ 0) (q - 2)
  rw [neg_sub] at this
  push_cast [Nat.pow_eq]
  exact this.symm

/-- The interval around a double in quarters of a step. -/
theorem contains_around (h : (Interval.around m q).Contains x) (hm : m ≠ 0) :
    (4 * m - quartersBelow m q : ℚ) * 2 ^ (q - 2) ≤ x ∧ x ≤ (4 * m + 2) * 2 ^ (q - 2) ∧
      (m % 2 = 1 → (4 * m - quartersBelow m q : ℚ) * 2 ^ (q - 2) < x ∧
        x < (4 * m + 2) * 2 ^ (q - 2)) := by
  have hunit : (0 : ℚ) < (Nat.pow 2 (2 - q).toNat : Nat) := by
    exact_mod_cast Nat.pow_pos (n := (2 - q).toNat) (by decide : 0 < 2)
  have hquarters : quartersBelow m q ≤ 4 * m := by
    unfold quartersBelow
    split <;> omega
  have hlow : ((Interval.around m q).low : ℚ) =
      (4 * m - quartersBelow m q) * 2 ^ (q - 2) * (Nat.pow 2 (2 - q).toNat : Nat) := by
    have : (Interval.around m q).low = (4 * m - quartersBelow m q) * Nat.pow 2 (q - 2).toNat := rfl
    rw [this, Nat.cast_mul, scale_around, Nat.cast_sub hquarters]
    push_cast
    ring
  have hhigh : ((Interval.around m q).high : ℚ) =
      (4 * m + 2) * 2 ^ (q - 2) * (Nat.pow 2 (2 - q).toNat : Nat) := by
    have : (Interval.around m q).high = (4 * m + 2) * Nat.pow 2 (q - 2).toNat := rfl
    rw [this, Nat.cast_mul, scale_around]
    push_cast
    ring
  have hlow_le := h.low_le
  have hle_high := h.le_high
  have hinside := h.inside
  rw [hlow] at hlow_le
  rw [hhigh] at hle_high
  rw [hlow, hhigh] at hinside
  refine ⟨le_of_mul_le_mul_right hlow_le hunit, le_of_mul_le_mul_right hle_high hunit, ?_⟩
  intro hodd
  have hopen : (Interval.around m q).closed = false := decide_eq_false (by omega)
  exact ⟨lt_of_mul_lt_mul_right (hinside hopen).1 hunit.le,
    lt_of_mul_lt_mul_right (hinside hopen).2 hunit.le⟩

theorem pow_length_toDigits_le {n : Nat} (h : 0 < n) : 10 ^ ((Nat.toDigits 10 n).length - 1) ≤ n := by
  have hpos := Nat.length_toDigits_pos (b := 10) (n := n)
  by_contra hlt
  obtain hone | hmore :
      (Nat.toDigits 10 n).length = 1 ∨ 0 < (Nat.toDigits 10 n).length - 1 := by omega
  · rw [hone] at hlt
    omega
  · have := (Nat.length_toDigits_le_iff (by decide) hmore).2 (not_le.1 hlt)
    omega

/-- The leading digit does not stand for more than the number. -/
theorem leadingPower_le {num den : Nat} (hnum : 0 < num) (hden : 0 < den) :
    (10 : ℚ) ^ leadingPower num den * den ≤ num := by
  unfold leadingPower
  split
  · next hle =>
      have hpos := Nat.length_toDigits_pos (b := 10) (n := num / den)
      have hpow := pow_length_toDigits_le (Nat.div_pos hle hden)
      have hmul : 10 ^ ((Nat.toDigits 10 (num / den)).length - 1) * den ≤ num :=
        (Nat.mul_le_mul_right den hpow).trans (Nat.div_mul_le_self num den)
      rw [show ((Nat.toDigits 10 (num / den)).length : Int) - 1 =
        ((Nat.toDigits 10 (num / den)).length - 1 : Nat) by omega, zpow_natCast]
      exact_mod_cast hmul
  · have hpos := Nat.length_toDigits_pos (b := 10) (n := (den - 1) / num)
    have hlt := (Nat.length_toDigits_le_iff (by decide) hpos).1
      (le_refl (Nat.toDigits 10 ((den - 1) / num)).length)
    rw [Nat.div_lt_iff_lt_mul hnum] at hlt
    have hle : (den : ℚ) ≤ 10 ^ (Nat.toDigits 10 ((den - 1) / num)).length * num := by
      exact_mod_cast (by omega : den ≤ 10 ^ (Nat.toDigits 10 ((den - 1) / num)).length * num)
    rw [zpow_neg, zpow_natCast, inv_mul_le_iff₀ (by positivity)]
    exact hle

/-- With seventeen digits some decimal rounds to the double. -/
theorem isSome_search_around (h : Canonical m q) (hm : m ≠ 0) :
    ((Interval.around m q).search
      (leadingPower (Interval.around m q).value (Interval.around m q).unit + 1) 19).isSome := by
  have hunit : 0 < (Interval.around m q).unit := Nat.pow_pos (by decide)
  have hscale : 0 < Nat.pow 2 (q - 2).toNat := Nat.pow_pos (by decide)
  have hvalue : (Interval.around m q).value = 4 * m * Nat.pow 2 (q - 2).toNat := rfl
  have hhigh : (Interval.around m q).high = (4 * m + 2) * Nat.pow 2 (q - 2).toNat := rfl
  have hlow : (Interval.around m q).low ≤ (Interval.around m q).value :=
    Nat.mul_le_mul_right _ (Nat.sub_le _ _)
  have hleading := leadingPower_le
    (hvalue ▸ Nat.mul_pos (by omega) hscale : 0 < (Interval.around m q).value) hunit
  generalize leadingPower (Interval.around m q).value (Interval.around m q).unit = leading at *
  refine Interval.isSome_search (k := 18) (by decide) (Interval.isSome_hit? hlow hunit ?_)
  have hgap : (Interval.around m q).high - (Interval.around m q).value =
      2 * Nat.pow 2 (q - 2).toNat := by
    rw [hhigh, hvalue, Nat.add_mul, Nat.add_sub_cancel_left]
  rw [hvalue] at hleading
  rw [hgap]
  generalize (Interval.around m q).unit = unit at *
  generalize Nat.pow 2 (q - 2).toNat = scale at *
  have hten := zpow_mul_pow (by norm_num : (10 : ℚ) ≠ 0) (leading + 1 - (18 : Nat))
  have hsmall : (10 : ℚ) ^ (leading + 1 - (18 : Nat)) = 10 ^ leading / 10 ^ 17 := by
    rw [show leading + 1 - (18 : Nat) = leading - (17 : Nat) by omega, zpow_sub₀ (by norm_num),
      zpow_natCast]
  have hm53 : (m : ℚ) < 2 ^ 53 := by exact_mod_cast h.mantissa_lt
  have hscale' : (0 : ℚ) < scale := by exact_mod_cast hscale
  have hfine : (unit : ℚ) * 10 ^ (leading + 1 - (18 : Nat)) < 2 * scale := by
    rw [hsmall]
    push_cast at hleading
    have hmantissa : (m : ℚ) * scale < 2 ^ 53 * scale := mul_lt_mul_of_pos_right hm53 hscale'
    rw [mul_div_assoc', div_lt_iff₀ (by positivity)]
    linarith
  have hdown : (0 : ℚ) < 10 ^ (-(leading + 1 - (18 : Nat))).toNat := by positivity
  have := mul_lt_mul_of_pos_right hfine hdown
  rw [mul_assoc, hten] at this
  exact_mod_cast this

theorem contains_shortest (h : Canonical m q) (hm : m ≠ 0) :
    (Interval.around m q).Contains (shortest m q).value := by
  obtain ⟨d, hd⟩ := Option.isSome_iff_exists.1 (isSome_search_around h hm)
  rw [shortest, if_neg hm]
  simp only [hd, value_trim]
  exact Interval.search_eq_some hd

theorem quartersBelow_le (m : Nat) (q : Int) : 1 ≤ quartersBelow m q ∧ quartersBelow m q ≤ 2 := by
  unfold quartersBelow
  split <;> omega

theorem pos_of_contains (h : (Interval.around m q).Contains x) (hm : m ≠ 0) : 0 < x := by
  have hstep : (0 : ℚ) < 2 ^ (q - 2) := by positivity
  have hquarters : (quartersBelow m q : ℚ) ≤ 2 := by exact_mod_cast (quartersBelow_le m q).2
  have hpos : (1 : ℚ) ≤ m := by exact_mod_cast Nat.one_le_iff_ne_zero.2 hm
  refine lt_of_lt_of_le (mul_pos ?_ hstep) (contains_around h hm).1
  linarith

/-- Of two doubles with steps of one size the decimals keep the order. -/
theorem le_of_contains (hm : m ≠ 0) (hm' : m' ≠ 0) (hx : (Interval.around m q).Contains x)
    (hx' : (Interval.around m' q).Contains x) : m ≤ m' := by
  by_contra hlt
  obtain ⟨hlow, -, hodd⟩ := contains_around hx hm
  obtain ⟨-, hhigh, hodd'⟩ := contains_around hx' hm'
  have hstep : (0 : ℚ) < 2 ^ (q - 2) := by positivity
  have hquarters := quartersBelow_le m q
  have hnext : 4 * m - quartersBelow m q ≤ 4 * m' + 2 := by
    have := le_of_mul_le_mul_right (hlow.trans hhigh) hstep
    have : (4 * m : ℚ) ≤ 4 * m' + 2 + quartersBelow m q := by linarith
    have : 4 * m ≤ 4 * m' + 2 + quartersBelow m q := by exact_mod_cast this
    omega
  obtain rfl : m = m' + 1 := by omega
  -- The intervals touch, so one of the two is open there.
  have hopen : ((m' + 1 : Nat) * 4 - quartersBelow (m' + 1) q : ℚ) * 2 ^ (q - 2) <
      (4 * m' + 2) * 2 ^ (q - 2) := by
    rw [mul_comm ((m' + 1 : Nat) : ℚ)]
    rcases Nat.mod_two_eq_zero_or_one m' with heven | hodd''
    · exact lt_of_lt_of_le (hodd (by omega)).1 hhigh
    · exact lt_of_le_of_lt hlow (hodd' hodd'').2
  have := lt_of_mul_lt_mul_right hopen hstep.le
  have : (4 * (m' + 1) : ℚ) < 4 * m' + 2 + quartersBelow (m' + 1) q := by
    push_cast at this
    linarith
  have : 4 * (m' + 1) < 4 * m' + 2 + quartersBelow (m' + 1) q := by exact_mod_cast this
  omega

/-- Decimals of a double with smaller steps lie below those of one with larger steps. -/
theorem not_contains_of_lt (h : Canonical m q) (h' : Canonical m' q') (hlt : q < q') (hm : m ≠ 0)
    (hx : (Interval.around m q).Contains x) : ¬(Interval.around m' q').Contains x := by
  intro hx'
  have hnormal : 2 ^ 52 ≤ m' := by
    by_contra hsub
    have := h'.normal (by omega)
    have := h.exponent_ge
    omega
  obtain ⟨-, hhigh, hodd⟩ := contains_around hx hm
  obtain ⟨hlow, -, -⟩ := contains_around hx' (by omega)
  have hstep : (0 : ℚ) < 2 ^ (q - 2) := by positivity
  have hsteps : (2 : ℚ) * 2 ^ (q - 2) ≤ 2 ^ (q' - 2) := by
    rw [← zpow_one_add₀ (by norm_num)]
    exact zpow_le_zpow_right₀ (by norm_num) (by omega)
  have hquarters := quartersBelow_le m' q'
  have hquarters' : (quartersBelow m' q' : ℚ) ≤ 4 * m' := by
    exact_mod_cast (by omega : quartersBelow m' q' ≤ 4 * m')
  have hbound : (4 * m' - quartersBelow m' q' : ℚ) * (2 * 2 ^ (q - 2)) ≤ x :=
    (mul_le_mul_of_nonneg_left hsteps (by linarith)).trans hlow
  have hmantissa := h.mantissa_lt
  have htouch : 8 * m' ≤ 4 * m + 2 + 2 * quartersBelow m' q' := by
    have : (4 * m' - quartersBelow m' q' : ℚ) * 2 ≤ 4 * m + 2 := by
      refine le_of_mul_le_mul_right ?_ hstep
      rw [mul_assoc]
      exact hbound.trans hhigh
    have : (8 * m' : ℚ) ≤ 4 * m + 2 + 2 * quartersBelow m' q' := by linarith
    exact_mod_cast this
  -- At best they touch at a power of two, and the interval below it is open.
  have hpower : m' = 2 ^ 52 := by omega
  have hquarter : quartersBelow m' q' = 1 := if_pos ⟨hpower, by have := h.exponent_ge; omega⟩
  have hbelow : m = 2 ^ 53 - 1 := by omega
  have hopen := lt_of_le_of_lt hbound (hodd (by omega)).2
  rw [← mul_assoc] at hopen
  have := lt_of_mul_lt_mul_right hopen hstep.le
  have : (8 * m' : ℚ) < 4 * m + 2 + 2 * quartersBelow m' q' := by linarith
  have : 8 * m' < 4 * m + 2 + 2 * quartersBelow m' q' := by exact_mod_cast this
  omega

theorem eq_of_contains (h : Canonical m q) (h' : Canonical m' q') (hm : m ≠ 0) (hm' : m' ≠ 0)
    (hx : (Interval.around m q).Contains x) (hx' : (Interval.around m' q').Contains x) :
    m = m' ∧ q = q' := by
  rcases lt_trichotomy q q' with hlt | rfl | hlt
  · exact absurd hx' (not_contains_of_lt h h' hlt hm hx)
  · exact ⟨le_antisymm (le_of_contains hm hm' hx hx') (le_of_contains hm' hm hx' hx), rfl⟩
  · exact absurd hx (not_contains_of_lt h' h hlt hm' hx')

theorem value_shortest_zero (q : Int) : (shortest 0 q).value = 0 := by
  simp [shortest, value]

/-- Doubles of one shortest decimal are the same. -/
theorem eq_of_shortest (h : Canonical m q) (h' : Canonical m' q')
    (heq : (shortest m q).value = (shortest m' q').value) : m = m' ∧ q = q' := by
  have hzero : ∀ {m q}, Canonical m q → ((shortest m q).value = 0 ↔ m = 0) := by
    intro m q h
    constructor
    · intro hvalue
      by_contra hm
      exact (pos_of_contains (contains_shortest h hm) hm).ne' hvalue
    · rintro rfl
      exact value_shortest_zero q
  by_cases hm : m = 0
  · have hm' : m' = 0 := (hzero h').1 (heq ▸ (hzero h).2 hm)
    exact ⟨hm.trans hm'.symm, (h.normal (by omega)).trans (h'.normal (by omega)).symm⟩
  · have hm' : m' ≠ 0 := fun hm' => hm ((hzero h).1 (heq ▸ (hzero h').2 hm'))
    exact eq_of_contains h h' hm hm' (contains_shortest h hm) (heq ▸ contains_shortest h' hm')

end Cadence.Decimal
