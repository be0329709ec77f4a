import Mathlib

/-!
# How large a number rounds to a double

A number is rounded to 53 binary places or fewer, and the rounding may carry into
one more.  So the last place of the result is at most a given one exactly for the
numbers below half a step under the next power of two.
-/

namespace Cadence.Rounding

open Float.Model Float.Model.UnpackedFloat

/-- Zero, or a number whose last binary place is at most this one. -/
def Within (place : Int) : UnpackedFloat → Prop
  | .zero _ => True
  | .finite _ _ e _ => e ≤ place
  | _ => False

theorem Within.exists_eq {place : Int} {u : UnpackedFloat} (h : Within place u) :
    (∃ s, u = .zero s) ∨ ∃ s m e hm, u = .finite s m e hm ∧ e ≤ place := by
  cases u with
  | zero s => exact .inl ⟨s, rfl⟩
  | finite s m e hm => exact .inr ⟨s, m, e, hm, rfl, h⟩
  | _ => exact h.elim

/-- Half a step under the power of two that needs a higher last place. -/
def limit (place : Int) : ℚ := (2 ^ 54 - 1 : Nat) * 2 ^ (place - 1)

variable {place e : Int} {m : Nat} {a : Accuracy} {em : ExtendedMantissa} {sign : Sign}

/-! ### Dropping bits -/

theorem shiftRight_succ (em : ExtendedMantissa) (k : Nat) :
    em >>> (k + 1) = (em >>> k).shiftRightOne := rfl

theorem mantissa_shiftRight (em : ExtendedMantissa) (k : Nat) :
    (em >>> k).mantissa = em.mantissa / 2 ^ k := by
  induction k with
  | zero => exact (Nat.div_one _).symm
  | succ k ih =>
      rw [shiftRight_succ, ExtendedMantissa.shiftRightOne, ih, Nat.div_div_eq_div_mul, Nat.pow_succ]

/-- The mantissa with its next bit. -/
def halves (em : ExtendedMantissa) : Nat := 2 * em.mantissa + em.roundBit.toNat

theorem halves_shiftRight (em : ExtendedMantissa) (k : Nat) :
    halves (em >>> (k + 1)) = em.mantissa / 2 ^ k := by
  rw [shiftRight_succ, halves, ExtendedMantissa.shiftRightOne, mantissa_shiftRight]
  dsimp only
  obtain h | h := Nat.mod_two_eq_zero_or_one (em.mantissa / 2 ^ k) <;> simp [h] <;> omega

theorem mantissa_ofMantissaAndAccuracy (m : Nat) (a : Accuracy) :
    (ExtendedMantissa.ofMantissaAndAccuracy m a).mantissa = m := by
  cases a with
  | exact => rfl
  | inexact o => cases o <;> rfl

/-- The next bit alone decides the rounding, unless it is a tie on an even mantissa. -/
theorem roundedMantissa_bounds (em : ExtendedMantissa) :
    em.mantissa ≤ em.roundedMantissa ∧ em.roundedMantissa ≤ em.mantissa + em.roundBit.toNat ∧
      (em.mantissa % 2 = 1 → em.roundedMantissa = em.mantissa + em.roundBit.toNat) := by
  obtain ⟨m, round, sticky⟩ := em
  cases round <;> cases sticky <;>
    simp [ExtendedMantissa.roundedMantissa, ExtendedMantissa.accuracy, Accuracy.roundToNearestEven]
  -- Only the tie is not settled by now.
  omega

/-- Rounding carries into one more place from half a step under it. -/
theorem roundedMantissa_lt_iff (h : em.mantissa < 2 ^ 53) :
    em.roundedMantissa < 2 ^ 53 ↔ halves em < 2 ^ 54 - 1 := by
  obtain ⟨-, hle, hodd⟩ := roundedMantissa_bounds em
  have hbit := em.roundBit.toNat_le
  rw [halves]
  omega

/-! ### Rounding -/

theorem targetExponent_eq (total : Int) :
    Format.binary64.targetExponent total = max (total - 53) (-1074) := rfl

/-- By how many places a number is shifted. -/
def surplus (m : Nat) (e : Int) : Nat :=
  (Format.binary64.targetExponent (totalExponent m e) - e).toNat

theorem le_surplus (m : Nat) (e : Int) : (m.log2 : Int) - 52 ≤ surplus m e := by
  rw [surplus, targetExponent_eq, totalExponent]
  omega

theorem ge_add_surplus (m : Nat) (e : Int) : -1074 ≤ e + surplus m e := by
  rw [surplus, targetExponent_eq]
  omega

theorem div_surplus_lt (m : Nat) (e : Int) : m / 2 ^ surplus m e < 2 ^ 53 := by
  have hlog : m < 2 ^ (m.log2 + 1) := Nat.lt_log2_self
  have hsurplus := le_surplus m e
  rw [Nat.div_lt_iff_lt_mul (by positivity), ← Nat.pow_add]
  exact hlog.trans_le (Nat.pow_le_pow_right (by decide) (by omega))

theorem surplus_of_lt (h : m < 2 ^ 53) (he : -1074 ≤ e) : surplus m e = 0 := by
  have hlog : m.log2 ≤ 52 := by
    by_cases hm : m = 0
    · simp [hm]
    · have := (Nat.log2_lt hm).2 h
      omega
  rw [surplus, targetExponent_eq, totalExponent]
  omega

/-- What is left of the mantissa after the shift, rounded. -/
def rounded (m : Nat) (e : Int) (a : Accuracy) : Nat :=
  (ExtendedMantissa.ofMantissaAndAccuracy m a >>> surplus m e).roundedMantissa

theorem mantissa_shifted (m : Nat) (a : Accuracy) (k : Nat) :
    (ExtendedMantissa.ofMantissaAndAccuracy m a >>> k).mantissa = m / 2 ^ k := by
  rw [mantissa_shiftRight, mantissa_ofMantissaAndAccuracy]

theorem shifted_lt (m : Nat) (e : Int) (a : Accuracy) :
    (ExtendedMantissa.ofMantissaAndAccuracy m a >>> surplus m e).mantissa < 2 ^ 53 := by
  rw [mantissa_shifted]
  exact div_surplus_lt m e

theorem rounded_le (m : Nat) (e : Int) (a : Accuracy) : rounded m e a ≤ 2 ^ 53 := by
  have hlt := shifted_lt m e a
  obtain ⟨-, hle, -⟩ := roundedMantissa_bounds
    (ExtendedMantissa.ofMantissaAndAccuracy m a >>> surplus m e)
  have hbit := Bool.toNat_le (ExtendedMantissa.ofMantissaAndAccuracy m a >>> surplus m e).roundBit
  rw [rounded]
  omega

theorem le_rounded (m : Nat) (e : Int) (a : Accuracy) : m / 2 ^ surplus m e ≤ rounded m e a := by
  rw [← mantissa_shifted m a]
  exact (roundedMantissa_bounds _).1

theorem rounded_lt_iff {k : Nat} (h : surplus m e = k + 1) :
    rounded m e a < 2 ^ 53 ↔ m / 2 ^ k < 2 ^ 54 - 1 := by
  rw [rounded, roundedMantissa_lt_iff (shifted_lt m e a), h, halves_shiftRight,
    mantissa_ofMantissaAndAccuracy]

/-- The rounded mantissa has 53 places at most, or is the power of two above them. -/
theorem within_iff_rounded :
    Within place (roundWithAccuracy Format.binary64 sign m e a) ↔
      rounded m e a = 0 ∨ e + surplus m e < place ∨
        e + surplus m e = place ∧ rounded m e a < 2 ^ 53 := by
  have hresult : roundWithAccuracy Format.binary64 sign m e a =
      let r := rounded m e a
      let last := e + surplus m e
      if h : r / 2 ^ surplus r last = 0 then .zero sign
      else .finite sign (r / 2 ^ surplus r last) (last + surplus r last) (Nat.pos_of_ne_zero h) := by
    simp only [roundWithAccuracy, shiftToTargetExponent, shiftToExponent, mantissa_shiftRight,
      ExtendedMantissa.ofMantissaAndAccuracy]
    rfl
  have hle := rounded_le m e a
  have hge := ge_add_surplus m e
  rw [hresult]
  generalize rounded m e a = r at hle ⊢
  generalize e + (surplus m e : Int) = last at hge ⊢
  dsimp only
  obtain hlt | rfl := Nat.lt_or_eq_of_le hle
  · rw [surplus_of_lt hlt hge]
    simp only [Nat.pow_zero, Nat.div_one, Nat.cast_zero, add_zero]
    split
    · next h => simp [h, Within]
    · next h =>
        simp only [Within, h, false_or, hlt, and_true]
        omega
  · have hone : surplus (2 ^ 53) last = 1 := by
      rw [surplus, targetExponent_eq, totalExponent, Nat.log2_two_pow]
      omega
    rw [hone, dif_neg (by decide)]
    simp only [Within]
    omega

/-! ### The limit -/

/-- Against a multiple of its last place a number is compared without its exponent. -/
theorem mul_zpow_lt_iff {bound k : Nat} (h : e + k = place) :
    (m : ℚ) * 2 ^ e < bound * 2 ^ place ↔ m < bound * 2 ^ k := by
  rw [← h, zpow_add₀ (by norm_num), mul_comm ((2 : ℚ) ^ e), ← mul_assoc,
    mul_lt_mul_iff_left₀ (by positivity), zpow_natCast]
  norm_cast

theorem lt_limit_iff {k : Nat} (h : e + k = place - 1) :
    (m : ℚ) * 2 ^ e < limit place ↔ m / 2 ^ k < 2 ^ 54 - 1 := by
  rw [limit, mul_zpow_lt_iff h, Nat.div_lt_iff_lt_mul (Nat.two_pow_pos k)]

theorem lt_limit_of_last_lt (h : e + surplus m e < place) : (m : ℚ) * 2 ^ e < limit place := by
  obtain ⟨k, hk⟩ := Int.eq_ofNat_of_zero_le (by omega : 0 ≤ place - 1 - e)
  rw [lt_limit_iff (k := k) (by omega)]
  calc m / 2 ^ k ≤ m / 2 ^ surplus m e :=
        Nat.div_le_div_left (Nat.pow_le_pow_right (by decide) (by omega)) (Nat.two_pow_pos _)
    _ < 2 ^ 53 := div_surplus_lt m e
    _ < 2 ^ 54 - 1 := by decide

theorem limit_le_of_full (hfull : 2 ^ 52 * 2 ^ surplus m e ≤ m) (h : place < e + surplus m e) :
    limit place ≤ (m : ℚ) * 2 ^ e := by
  calc limit place ≤ 2 ^ 54 * 2 ^ (place - 1) := by
        refine mul_le_mul_of_nonneg_right ?_ (by positivity)
        norm_num
    _ = 2 ^ 52 * 2 ^ (place + 1) := by
        rw [show place + 1 = place - 1 + 2 by omega, zpow_add₀ (by norm_num)]
        ring
    _ ≤ 2 ^ 52 * 2 ^ (e + surplus m e) := by
        refine mul_le_mul_of_nonneg_left ?_ (by positivity)
        exact zpow_le_zpow_right₀ (by norm_num) (by omega)
    _ = (2 ^ 52 * 2 ^ surplus m e : Nat) * 2 ^ e := by
        rw [zpow_add₀ (by norm_num), zpow_natCast]
        push_cast
        ring
    _ ≤ m * 2 ^ e := mul_le_mul_of_nonneg_right (by exact_mod_cast hfull) (by positivity)

/-- Above the least place of all, whatever is shifted has all 53 places. -/
theorem full_of_shifted (hshift : surplus m e ≠ 0) (h : -1074 < e + surplus m e) :
    2 ^ 52 * 2 ^ surplus m e ≤ m := by
  have hsurplus : (surplus m e : Int) = m.log2 - 52 := by
    rw [surplus, targetExponent_eq, totalExponent] at h hshift ⊢
    omega
  have hm : m ≠ 0 := by
    rintro rfl
    simp at hsurplus
  rw [← Nat.pow_add]
  exact (Nat.le_log2 hm).1 (by omega)

/-- A number rounds to at most this last place exactly below the limit, if it has places behind the
last one or fills all 53. -/
theorem within_roundWithAccuracy_iff (hplace : -1074 < place) (h : e < place ∨ 2 ^ 53 ≤ m) :
    Within place (roundWithAccuracy Format.binary64 sign m e a) ↔ (m : ℚ) * 2 ^ e < limit place := by
  have hshift (hle : place ≤ e + surplus m e) : surplus m e ≠ 0 := by
    intro hnone
    have hm : m < 2 ^ 53 := by simpa [hnone] using div_surplus_lt m e
    omega
  -- Below the place a carry does no harm, at the place it decides, and above it the number fills
  -- all its places and is too large.
  rw [within_iff_rounded]
  rcases lt_trichotomy (e + surplus m e) place with hlt | heq | hgt
  · simp only [hlt, lt_limit_of_last_lt hlt, true_or, or_true]
  · obtain ⟨k, hk⟩ := Nat.exists_eq_succ_of_ne_zero (hshift heq.ge)
    rw [lt_limit_iff (k := k) (by omega), ← rounded_lt_iff hk]
    constructor
    · rintro (hzero | hlt | ⟨-, hr⟩)
      · rw [hzero]
        decide
      · omega
      · exact hr
    · intro hr
      exact .inr (.inr ⟨heq, hr⟩)
  · have hfull := full_of_shifted (hshift hgt.le) (by omega)
    have hr : 2 ^ 52 ≤ rounded m e a :=
      ((Nat.le_div_iff_mul_le (Nat.two_pow_pos _)).2 hfull).trans (le_rounded m e a)
    simp only [(limit_le_of_full hfull hgt).not_gt, iff_false]
    omega

/-! ### Operations -/

variable {s₁ s₂ : Sign} {m₁ m₂ : Nat} {e₁ e₂ : Int} {h₁ : 0 < m₁} {h₂ : 0 < m₂}

theorem within_mul_iff (hplace : -1074 < place) (h : e₁ + e₂ < place) :
    Within place (mul Format.binary64 (.finite s₁ m₁ e₁ h₁) (.finite s₂ m₂ e₂ h₂)) ↔
      (m₁ * 2 ^ e₁ * (m₂ * 2 ^ e₂) : ℚ) < limit place := by
  rw [UnpackedFloat.mul, within_roundWithAccuracy_iff hplace (.inl h), zpow_add₀ (by norm_num),
    Nat.cast_mul, mul_mul_mul_comm]

theorem within_div_iff (hplace : -1074 < place) (h : e₁ - e₂ < place) :
    Within place (div Format.binary64 (.finite s₁ m₁ e₁ h₁) (.finite s₂ m₂ e₂ h₂)) ↔
      (m₁ * 2 ^ e₁ / (m₂ * 2 ^ e₂) : ℚ) < limit place := by
  rw [UnpackedFloat.div, divCore]
  dsimp only
  have hle := min_le_left (e₁ - e₂)
    (Format.binary64.targetExponent (totalExponent m₁ e₁ - totalExponent m₂ e₂))
  generalize min (e₁ - e₂) _ = last at hle ⊢
  obtain ⟨k, hk⟩ := Int.eq_ofNat_of_zero_le (by omega : 0 ≤ place - 1 - last)
  obtain ⟨j, hj⟩ := Int.eq_ofNat_of_zero_le (by omega : 0 ≤ e₁ - e₂ - last)
  have hpos : (0 : ℚ) < m₂ := by exact_mod_cast h₂
  have hquotient : (m₁ * 2 ^ e₁ / (m₂ * 2 ^ e₂) : ℚ) = (m₁ * 2 ^ j : Nat) * 2 ^ last / m₂ := by
    rw [show e₁ = e₂ + j + last by omega, zpow_add₀ (by norm_num), zpow_add₀ (by norm_num),
      zpow_natCast]
    push_cast
    field_simp
  rw [within_roundWithAccuracy_iff hplace (.inl (by omega)), lt_limit_iff (k := k) (by omega), hj,
    hquotient, div_lt_iff₀ hpos, limit, mul_right_comm, ← Nat.cast_mul,
    mul_zpow_lt_iff (k := k) (by omega), Nat.div_lt_iff_lt_mul (Nat.two_pow_pos k),
    Nat.div_lt_iff_lt_mul h₂, Nat.shiftLeft_eq, Int.toNat_natCast, mul_right_comm]

theorem within_ofNat_iff (hplace : 0 < place) :
    Within place (UnpackedFloat.ofNat Format.binary64 m) ↔ (m : ℚ) < limit place := by
  rcases Nat.eq_zero_or_pos m with rfl | hm
  · have hzero : (0 : ℚ) < limit place := by
      unfold limit
      positivity
    rw [Nat.cast_zero]
    exact iff_of_true trivial hzero
  · have hpos : compare (m : Int) 0 = .gt := by
      rw [compare_gt_iff_gt]
      exact_mod_cast hm
    rw [UnpackedFloat.ofNat, UnpackedFloat.ofInt, UnpackedFloat.normalize, hpos]
    dsimp only
    rw [UnpackedFloat.round, decreaseExponent, Int.toNat_natCast]
    dsimp only
    generalize (0 - Format.binary64.targetExponent (totalExponent m 0)).toNat = k
    rw [within_roundWithAccuracy_iff (by omega) (.inl (by omega)), Nat.shiftLeft_eq, zero_sub,
      zpow_neg, zpow_natCast]
    push_cast
    rw [mul_inv_cancel_right₀ (by positivity)]

end Cadence.Rounding
