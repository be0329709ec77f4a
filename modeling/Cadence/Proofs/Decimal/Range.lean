import Cadence.Decimal.Reader
import Cadence.Proofs.Decimal.Rounding
import Cadence.Proofs.Decimal.Shortest

/-!
# Which decimals have a double

A decimal reads as a finite double exactly if it lies below half a step under the
first power of two that has none.
-/

namespace Cadence

open Rounding Float.Model Float.Model.UnpackedFloat

variable {u : UnpackedFloat} {x y : Float} {place : Int}

/-! ### Finite doubles -/

theorem isFiniteNumber_iff_exponent (x : Float) :
    isFiniteNumber x = true ↔
      (@unpackExponent Format.binary64 x.toModel.toBits.toBitVec).toNat ≠ 2047 := by
  have hexp : (@unpackExponent Format.binary64 x.toModel.toBits.toBitVec).toNat =
      x.toBits.toNat / Nat.pow 2 52 % Nat.pow 2 11 := by
    simp [unpackExponent, Float.toBits, Nat.shiftRight_eq_div_pow]
  rw [hexp, isFiniteNumber, Binary.ofFloat, Binary.ofBits]
  split_ifs with hfull hfraction hleast
  · simp [hfull]
  · simp [hfull]
  · simp [hleast]
  · simpa using hfull

theorem isFiniteNumber_pack (u : UnpackedFloat) :
    isFiniteNumber (.ofModel (.pack u)) = true ↔ Within 971 u := by
  rw [isFiniteNumber_iff_exponent]
  change (unpackExponent (UnpackedFloat.pack Format.binary64 u)).toNat ≠ 2047 ↔ _
  cases u with
  | infinity s => simp [UnpackedFloat.pack, packedInfinity, Within]
  | notANumber => simp [UnpackedFloat.pack, packedNaN, Within]
  | zero s => simp [UnpackedFloat.pack, packedZero, Within]
  | finite s m e h =>
      have hbias : Format.binary64.exponentBias = 1023 := rfl
      simp only [UnpackedFloat.pack, Within, hbias]
      split
      · simp [packedInfinity]
        omega
      · split <;> simp <;> omega

theorem isFiniteNumber_iff_within (x : Float) :
    isFiniteNumber x = true ↔ Within 971 x.toModel.unpack := by
  conv_lhs => rw [← x.ofBits_toBits]
  exact isFiniteNumber_pack _

theorem isFiniteNumber_neg (x : Float) : isFiniteNumber (-x) = isFiniteNumber x := by
  have h : -x = .ofModel (.pack x.toModel.unpack.neg) := rfl
  rw [Bool.eq_iff_iff, h, isFiniteNumber_pack, isFiniteNumber_iff_within]
  cases x.toModel.unpack <;> rfl

/-- What the bits of a double with this biased exponent can be unpacked to. -/
inductive UnpacksTo (biased : Nat) : UnpackedFloat → Prop
  | infinity (s : Sign) : biased = 2047 → UnpacksTo biased (.infinity s)
  | notANumber : biased = 2047 → UnpacksTo biased .notANumber
  | zero (s : Sign) : biased < 2047 → UnpacksTo biased (.zero s)
  | finite {s : Sign} {m : Nat} {e : Int} {h : 0 < m} : m < 2 ^ 53 → biased < 2047 →
      e = max (biased : Int) 1 - 1075 → UnpacksTo biased (.finite s m e h)

theorem unpacksTo (b : BitVec Format.binary64.numBits) :
    UnpacksTo (unpackExponent b).toNat (UnpackedFloat.unpack Format.binary64 b) := by
  have hbias : (Format.binary64.exponentBias : Int) = 1023 := rfl
  have hlt : (unpackExponent b).toNat < 2 ^ 11 := (unpackExponent b).isLt
  have hones : unpackExponent b = -1#_ ↔ (unpackExponent b).toNat = 2047 := by
    rw [← BitVec.toNat_inj]
    rfl
  have hnone : unpackExponent b = 0#_ ↔ (unpackExponent b).toNat = 0 := by
    rw [← BitVec.toNat_inj]
    rfl
  rw [UnpackedFloat.unpack]
  simp only [hones, hnone, hbias]
  split_ifs with hfull hfraction hleast hzero
  · exact .infinity _ hfull
  · exact .notANumber hfull
  · exact .zero _ (by omega)
  · exact .finite ((unpackMantissa b).isLt.trans (by decide)) (by omega) (by omega)
  · exact .finite (1#1 ++ unpackMantissa b).isLt (by omega) (by omega)

/-- Packing keeps the last place of a number that fits. -/
theorem within_unpack_pack (hlow : -1074 ≤ place) (hhigh : place ≤ 971) (h : Within place u) :
    Within place (Float.Model.pack u).unpack := by
  change Within place
    (UnpackedFloat.unpack Format.binary64 (UnpackedFloat.pack Format.binary64 u))
  have hunpacks := unpacksTo (UnpackedFloat.pack Format.binary64 u)
  have hexp : (unpackExponent (UnpackedFloat.pack Format.binary64 u)).toNat ≤
      (place + 1075).toNat := by
    cases u with
    | infinity s => exact h.elim
    | notANumber => exact h.elim
    | zero s => simp [UnpackedFloat.pack, packedZero]
    | finite s m e hm =>
        have hbias : Format.binary64.exponentBias = 1023 := rfl
        simp only [Within] at h
        simp only [UnpackedFloat.pack, hbias]
        split
        · omega
        · split
          · simp
            omega
          · simp
  generalize (unpackExponent _).toNat = biased at hunpacks hexp
  generalize UnpackedFloat.unpack _ _ = v at hunpacks ⊢
  cases hunpacks with
  | infinity s hfull => omega
  | notANumber hfull => omega
  | zero s hlt => trivial
  | finite hm hlt he =>
      simp only [Within]
      omega

theorem mantissa_lt_of_unpack {s : Sign} {m : Nat} {e : Int} {h : 0 < m}
    (hx : x.toModel.unpack = .finite s m e h) : m < 2 ^ 53 := by
  have hunpacks := unpacksTo x.toModel.toBits.toBitVec
  rw [← Float.Model.unpack, hx] at hunpacks
  cases hunpacks
  assumption

theorem limit_eq : limit 971 = 2 ^ 1024 - 2 ^ 970 := by
  rw [limit, show (971 - 1 : Int) = (970 : Nat) from rfl, zpow_natCast,
    show 1024 = 54 + 970 from rfl, pow_add, ← sub_one_mul]
  norm_num

theorem limit_lt_pow_ten : limit 971 < 10 ^ 400 := by
  have hpower : (2 : ℚ) ^ (64 * 16) ≤ 10 ^ (25 * 16) := by
    rw [pow_mul, pow_mul]
    exact pow_le_pow_left₀ (by positivity) (by norm_num) 16
  have hpos : (0 : ℚ) < 2 ^ 970 := by positivity
  rw [limit_eq]
  exact (sub_lt_self _ hpos).trans_le hpower

theorem lt_limit {k : Nat} (h : k ≤ 1023) : (2 : ℚ) ^ k < limit 971 := by
  have hpower : (2 : ℚ) ^ k ≤ 2 ^ 53 * 2 ^ 970 := by
    rw [← pow_add]
    exact pow_le_pow_right₀ (by norm_num) h
  have hroom : (2 : ℚ) ^ 53 * 2 ^ 970 < (2 ^ 54 - 1 : Nat) * 2 ^ 970 :=
    mul_lt_mul_of_pos_right (by norm_num) (by positivity)
  exact hpower.trans_lt hroom

theorem mul_zpow_lt {m : Nat} {e : Int} {k : Nat} (hm : m < 2 ^ 53) (he : e ≤ k) :
    (m : ℚ) * 2 ^ e < 2 ^ (53 + k) := by
  have hpower : (2 : ℚ) ^ e ≤ 2 ^ (k : Int) := zpow_le_zpow_right₀ (by norm_num) he
  have hmantissa : (m : ℚ) < 2 ^ 53 := by exact_mod_cast hm
  rw [pow_add, ← zpow_natCast _ k]
  exact mul_lt_mul hmantissa hpower (by positivity) (by positivity)

/-! ### Small significands and powers of ten -/

/-- A number from one on, up to the last power of ten that has a double. -/
def Power : UnpackedFloat → Prop
  | .finite _ m e _ => 2 ^ 52 ≤ m ∧ -52 ≤ e ∧ e ≤ 21
  | _ => False

instance : DecidablePred Power
  | .finite _ m e _ => inferInstanceAs (Decidable (2 ^ 52 ≤ m ∧ -52 ≤ e ∧ e ≤ 21))
  | .zero _ => inferInstanceAs (Decidable False)
  | .infinity _ => inferInstanceAs (Decidable False)
  | .notANumber => inferInstanceAs (Decidable False)

theorem power_unpack : ∀ e : Fin Float.exactlyRepresentablePowersOfTen.size,
    Power Float.exactlyRepresentablePowersOfTen[e].toModel.unpack := by
  decide +kernel

theorem Power.exists_eq (h : Power u) : ∃ s m e hm, u = .finite s m e hm ∧
    -52 ≤ e ∧ e ≤ 21 ∧ (1 : ℚ) ≤ m * 2 ^ e := by
  cases u with
  | finite s m e hm =>
      obtain ⟨hfull, hlow, hhigh⟩ := h
      refine ⟨s, m, e, hm, rfl, hlow, hhigh, ?_⟩
      calc (1 : ℚ) = 2 ^ 52 * 2 ^ (-52 : Int) := by norm_num
        _ ≤ m * 2 ^ e := mul_le_mul (by exact_mod_cast hfull)
            (zpow_le_zpow_right₀ (by norm_num) hlow) (by positivity) (by positivity)
  | _ => exact h.elim

theorem within_toFloat {m : Nat} (hm : m < 2 ^ 53) :
    Within 1 m.toUInt64.toFloat.toModel.unpack := by
  refine within_unpack_pack (by decide) (by decide) ?_
  rw [UnpackedFloat.ofUInt64, within_ofNat_iff (by decide), limit]
  have hsame : m.toUInt64.toNat = m := Nat.mod_eq_of_lt (hm.trans (by decide))
  rw [hsame, sub_self, zpow_zero, mul_one]
  exact_mod_cast (by omega : m < 2 ^ 54 - 1)

theorem isFiniteNumber_mul_power (hx : Within 1 x.toModel.unpack) (hy : Power y.toModel.unpack) :
    isFiniteNumber (x * y) = true := by
  have hmul : x * y = .ofModel (.pack (.mul Format.binary64 x.toModel.unpack y.toModel.unpack)) := rfl
  obtain ⟨s', m', e', h', hv, -, hhigh, -⟩ := hy.exists_eq
  rw [hmul, isFiniteNumber_pack, hv]
  obtain ⟨s, hu⟩ | ⟨s, m, e, h, hu, he⟩ := hx.exists_eq
  · rw [hu]
    trivial
  · rw [hu, within_mul_iff (by decide) (by omega)]
    calc (m * 2 ^ e * (m' * 2 ^ e') : ℚ) < 2 ^ (53 + 1) * 2 ^ (53 + 21) :=
          mul_lt_mul'' (mul_zpow_lt (mantissa_lt_of_unpack hu) he)
            (mul_zpow_lt (mantissa_lt_of_unpack hv) hhigh) (by positivity) (by positivity)
      _ = 2 ^ 128 := by norm_num
      _ < limit 971 := lt_limit (by decide)

theorem isFiniteNumber_div_power (hx : Within 1 x.toModel.unpack) (hy : Power y.toModel.unpack) :
    isFiniteNumber (x / y) = true := by
  have hdiv : x / y = .ofModel (.pack (.div Format.binary64 x.toModel.unpack y.toModel.unpack)) := rfl
  obtain ⟨s', m', e', h', hv, hlow, -, hone⟩ := hy.exists_eq
  rw [hdiv, isFiniteNumber_pack, hv]
  obtain ⟨s, hu⟩ | ⟨s, m, e, h, hu, he⟩ := hx.exists_eq
  · rw [hu]
    trivial
  · rw [hu, within_div_iff (by decide) (by omega)]
    calc (m * 2 ^ e / (m' * 2 ^ e') : ℚ) ≤ m * 2 ^ e := div_le_self (by positivity) hone
      _ < 2 ^ (53 + 1) := mul_zpow_lt (mantissa_lt_of_unpack hu) he
      _ < limit 971 := lt_limit (by decide)

/-- A small significand with a small power of ten is always finite. -/
theorem isFiniteNumber_ofScientific_small {m e : Nat} (hm : m < 2 ^ 53) (he : e ≤ 22) (down : Bool) :
    isFiniteNumber (Float.ofScientific m down e) = true := by
  rw [Float.ofScientific, dif_pos ⟨hm, he⟩]
  have hx := within_toFloat hm
  have hy := power_unpack ⟨e, Nat.lt_succ_of_le he⟩
  cases down with
  | false => exact isFiniteNumber_mul_power hx hy
  | true => exact isFiniteNumber_div_power hx hy

/-! ### Decimals -/

namespace Decimal

variable {d : Decimal}

theorem value_of_nonneg (h : 0 ≤ d.exponent) : d.value = d.digits * 10 ^ d.exponent.toNat := by
  rw [value, ← zpow_natCast, Int.toNat_of_nonneg h]

theorem value_of_neg (h : d.exponent < 0) : d.value = d.digits / 10 ^ (-d.exponent).toNat := by
  rw [value, ← zpow_natCast, Int.toNat_of_nonneg (by omega), zpow_neg, div_inv_eq_mul]

theorem value_lt_pow {k : Nat} (h : d.digits < 10 ^ k) : d.value < 10 ^ (k + d.exponent) := by
  rw [value, zpow_add₀ (by norm_num), zpow_natCast]
  exact mul_lt_mul_of_pos_right (by exact_mod_cast h) (by positivity)

theorem pow_le_value {k : Nat} (h : 10 ^ k ≤ d.digits) : 10 ^ (k + d.exponent) ≤ d.value := by
  rw [value, zpow_add₀ (by norm_num), zpow_natCast]
  exact mul_le_mul_of_nonneg_right (by exact_mod_cast h) (by positivity)

theorem lt_pow_length_toDigits (n : Nat) : n < 10 ^ (Nat.toDigits 10 n).length :=
  (Nat.length_toDigits_le_iff (by decide) Nat.length_toDigits_pos).1 le_rfl

theorem lt_limit_of_le_one {q : ℚ} (h : q ≤ 1) : q < limit 971 :=
  h.trans_lt (lt_limit (k := 0) (by decide))

theorem lt_limit_of_digits (h : d.digits < 2 ^ 53) (he : d.exponent ≤ 22) :
    d.value < limit 971 := by
  calc d.value < 10 ^ ((16 : Nat) + d.exponent) := value_lt_pow (h.trans (by decide))
    _ ≤ 10 ^ (38 : Int) := zpow_le_zpow_right₀ (by norm_num) (by omega)
    _ ≤ 2 ^ 127 := by norm_num
    _ < limit 971 := lt_limit (by decide)

theorem within_ofScientific_iff (he : d.exponent ≤ 2048) :
    Within 971 (UnpackedFloat.ofScientific Format.binary64 d.digits d.exponent) ↔
      d.value < limit 971 := by
  rw [UnpackedFloat.ofScientific]
  split_ifs with hzero hhuge htiny hwhole
  · refine iff_of_true trivial (lt_limit_of_le_one ?_)
    simp [value, hzero]
  · exact absurd hhuge (not_lt.2 he)
  · -- What is cut off as too small for a double is far below one.
    have hlog : d.digits < 10 ^ (d.digits.log2 + 1) :=
      Nat.lt_log2_self.trans_le (Nat.pow_le_pow_left (by decide) _)
    have hone : d.value < 10 ^ (0 : Int) :=
      (value_lt_pow hlog).trans_le (zpow_le_zpow_right₀ (by norm_num) (by push_cast at *; omega))
    exact iff_of_true trivial (lt_limit_of_le_one hone.le)
  · rw [within_mul_iff (by decide) (by decide), value_of_nonneg hwhole]
    have hscaled : (((d.digits <<< Format.binary64.mantissaBits : Nat) : ℚ) *
        2 ^ (-(Format.binary64.mantissaBits : Int))) = d.digits := by
      rw [Nat.shiftLeft_eq, zpow_neg, zpow_natCast]
      push_cast
      exact mul_inv_cancel_right₀ (by positivity) _
    rw [hscaled, zpow_zero, mul_one, Nat.cast_pow, Nat.cast_ofNat]
  · rw [within_div_iff (by decide) (by decide), value_of_neg (not_le.1 hwhole),
      zpow_zero, mul_one, mul_one, Nat.cast_pow, Nat.cast_ofNat]

theorem isFiniteNumber_ofScientific_iff (he : d.exponent ≤ 2048) :
    isFiniteNumber (Float.ofScientific d.digits (d.exponent < 0) d.exponent.natAbs) = true ↔
      d.value < limit 971 := by
  -- Small decimals are put together from two doubles, all others by exact arithmetic.
  by_cases hsmall : d.digits < 2 ^ 53 ∧ d.exponent.natAbs ≤ 22
  · refine iff_of_true (isFiniteNumber_ofScientific_small hsmall.1 hsmall.2 _) ?_
    exact lt_limit_of_digits hsmall.1 (by omega)
  · have hexponent : (if d.exponent < 0 then Int.negOfNat d.exponent.natAbs
        else Int.ofNat d.exponent.natAbs) = d.exponent := by
      rw [Int.negOfNat_eq]
      split <;> simp only [Int.ofNat_eq_natCast] <;> omega
    rw [Float.ofScientific, dif_neg hsmall]
    dsimp only
    simp only [decide_eq_true_eq, hexponent]
    exact (isFiniteNumber_pack _).trans (within_ofScientific_iff he)

/-- A decimal reads as a finite double exactly below half a step under `2 ^ 1024`. -/
theorem isFiniteNumber_toFloat_iff (d : Decimal) :
    isFiniteNumber d.toFloat = true ↔ d.value < 2 ^ 1024 - 2 ^ 970 := by
  rw [← limit_eq, toFloat]
  split_ifs with hsmall hlarge
  · refine iff_of_true (by decide +kernel) ?_
    rcases hsmall with hzero | htiny
    · refine lt_limit_of_le_one ?_
      simp [value, hzero]
    · have hone : d.value < 10 ^ (0 : Int) := (value_lt_pow (lt_pow_length_toDigits _)).trans_le
        (zpow_le_zpow_right₀ (by norm_num) (by omega))
      exact lt_limit_of_le_one hone.le
  · refine iff_of_false (by decide +kernel) (not_lt.2 ?_)
    have hpos : 0 < d.digits := Nat.pos_of_ne_zero fun h => hsmall (.inl h)
    calc limit 971 ≤ 10 ^ (400 : Int) := limit_lt_pow_ten.le
      _ ≤ 10 ^ (((Nat.toDigits 10 d.digits).length - 1 : Nat) + d.exponent) :=
          zpow_le_zpow_right₀ (by norm_num) (by omega)
      _ ≤ d.value := pow_le_value (pow_length_toDigits_le hpos)
  · exact isFiniteNumber_ofScientific_iff (by omega)

/-! ### Texts -/

/-- The text spells this number, of either sign. -/
def Spelled (text : String) (d : Decimal) : Prop := ofChars? (splitSign text.toList).2 = some d

theorem ofChars?_eq_none {c : Char} {cs : List Char} (hdigit : c.isDigit = false) (hpoint : c ≠ '.') :
    ofChars? (c :: cs) = none := by
  simp [ofChars?, hdigit, hpoint]

theorem toLower_eq_self {c : Char} (h : c.isDigit = true ∨ c = '.') : c.toLower = c := by
  rcases h with hdigit | rfl
  · rw [Char.toLower, dif_neg]
    rintro ⟨hlow, -⟩
    simp only [Char.isDigit, Bool.and_eq_true, decide_eq_true_eq] at hdigit
    have hle : 'A'.val ≤ '9'.val := UInt32.le_trans hlow hdigit.2
    exact absurd hle (by decide)
  · rfl

/-- A word is no decimal. -/
theorem ofChars?_of_word {cs : List Char} {word : String} {w : Char} {ws : List Char}
    (h : String.ofList (cs.map Char.toLower) = word) (hword : word.toList = w :: ws)
    (hletter : w.isDigit = false ∧ w ≠ '.') : ofChars? cs = none := by
  rw [← h, String.toList_ofList] at hword
  obtain ⟨c, rest, rfl, rfl, -⟩ := List.map_eq_cons_iff.1 hword
  have hc : ¬ (c.isDigit = true ∨ c = '.') := by
    intro hc
    rw [toLower_eq_self hc] at hletter
    simp [hletter] at hc
  rw [not_or, Bool.not_eq_true] at hc
  exact ofChars?_eq_none hc.1 hc.2

end Decimal

variable {text : String}

/-- Of the texts that are read as numbers, the words and the decimals that are too large read as no
finite one. -/
theorem isFiniteNumber_of_parseFloat? (h : parseFloat? text = some x) :
    isFiniteNumber x = true ↔ ∃ d, Decimal.Spelled text d ∧ d.value < 2 ^ 1024 - 2 ^ 970 := by
  unfold parseFloat? at h
  unfold Decimal.Spelled
  generalize Decimal.splitSign text.toList = signed at h ⊢
  obtain ⟨negative, cs⟩ := signed
  dsimp only at h ⊢
  obtain ⟨y, hy, rfl⟩ := Option.map_eq_some_iff.1 h
  have hsign : isFiniteNumber (if negative then -y else y) = isFiniteNumber y := by
    split
    · exact isFiniteNumber_neg y
    · rfl
  rw [hsign]
  split_ifs at hy with hinf hnan
  · obtain rfl := Option.some.inj hy
    have hnone : Decimal.ofChars? cs = none := by
      rw [Bool.or_eq_true, decide_eq_true_eq, decide_eq_true_eq] at hinf
      rcases hinf with hinf | hinf
      · exact Decimal.ofChars?_of_word hinf rfl (by decide)
      · exact Decimal.ofChars?_of_word hinf rfl (by decide)
    simp only [hnone, reduceCtorEq, false_and, exists_false, iff_false]
    decide +kernel
  · obtain rfl := Option.some.inj hy
    have hnone : Decimal.ofChars? cs = none := Decimal.ofChars?_of_word hnan rfl (by decide)
    simp only [hnone, reduceCtorEq, false_and, exists_false, iff_false]
    decide +kernel
  · obtain ⟨d, hd, rfl⟩ := Option.map_eq_some_iff.1 hy
    simp [hd, Decimal.isFiniteNumber_toFloat_iff]

end Cadence
