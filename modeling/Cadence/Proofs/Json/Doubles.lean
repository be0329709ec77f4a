import Cadence.Proofs.Decimal.Shortest
import Cadence.Proofs.Json.Numbers

/-!
# Doubles by their literals

A literal says which decimal it was written for, and the shortest decimal says
which double.  So no two finite doubles are written alike, and there is a reader
that reads all of them back.
-/

namespace Cadence

namespace Binary

theorem canonical_of_ofBits {bits : Nat} {negative : Bool} {m : Nat} {q : Int}
    (h : ofBits bits = .finite negative m q) : Decimal.Canonical m q := by
  unfold ofBits at h
  extract_lets sign biased fraction at h
  have hfraction : fraction < 2 ^ 52 := Nat.mod_lt _ (by decide)
  split at h
  · split at h <;> contradiction
  split at h
  · obtain ⟨-, rfl, rfl⟩ := finite.inj h
    exact ⟨by omega, by omega, fun _ => rfl⟩
  · obtain ⟨-, rfl, rfl⟩ := finite.inj h
    have hpow : Nat.pow 2 52 = 2 ^ 52 := rfl
    have hcast : Int.ofNat biased = biased := rfl
    exact ⟨by omega, by omega, by omega⟩

/-- The bits of a finite double in terms of what they say. -/
theorem bits_of_ofBits {bits : Nat} (hlt : bits < 2 ^ 64) {negative : Bool} {m : Nat} {q : Int}
    (h : ofBits bits = .finite negative m q) :
    bits = negative.toNat * 2 ^ 63 +
      if m < 2 ^ 52 then m else (q + 1075).toNat * 2 ^ 52 + (m - 2 ^ 52) := by
  unfold ofBits at h
  extract_lets sign biased fraction at h
  have hfraction : fraction < 2 ^ 52 := Nat.mod_lt _ (by decide)
  have hpow : Nat.pow 2 52 = 2 ^ 52 ∧ Nat.pow 2 63 = 2 ^ 63 ∧ Nat.pow 2 11 = 2 ^ 11 :=
    ⟨rfl, rfl, rfl⟩
  have hbits : bits = bits / 2 ^ 63 * 2 ^ 63 + (biased * 2 ^ 52 + fraction) := by
    simp only [biased, fraction, hpow]
    omega
  have hsign : bits / 2 ^ 63 = sign.toNat := by
    simp only [sign, hpow]
    rcases (by omega : bits / 2 ^ 63 = 0 ∨ bits / 2 ^ 63 = 1) with hbit | hbit <;> rw [hbit] <;> rfl
  rw [hsign] at hbits
  split at h
  · split at h <;> contradiction
  split at h
  · next hzero =>
      obtain ⟨rfl, rfl, rfl⟩ := finite.inj h
      rw [if_pos hfraction]
      omega
  · obtain ⟨rfl, rfl, rfl⟩ := finite.inj h
    rw [if_neg (by omega)]
    have : (Int.ofNat biased - 1075 + 1075).toNat = biased := by simp
    rw [this]
    omega

theorem ofFloat_injective {x y : Float} {negative : Bool} {m : Nat} {q : Int}
    (hx : ofFloat x = .finite negative m q) (hy : ofFloat y = .finite negative m q) : x = y := by
  have hbits : x.toBits.toNat = y.toBits.toNat :=
    (bits_of_ofBits x.toBits.toNat_lt hx).trans (bits_of_ofBits y.toBits.toNat_lt hy).symm
  have hmodel : x.toModel.toBits = y.toModel.toBits := UInt64.toNat_inj.1 hbits
  obtain ⟨⟨bits, valid⟩⟩ := x
  obtain ⟨⟨bits', valid'⟩⟩ := y
  obtain rfl : bits = bits' := hmodel
  rfl

end Binary

namespace JsonNumber

theorem valueOf_digitsOf (n : Nat) : valueOf (digitsOf n) = n := by
  rw [valueOf, digitsOf, List.foldl_map]
  exact foldl_toDigits n

theorem valueOf_append (front behind : List Nat) :
    valueOf (front ++ behind) = valueOf front * 10 ^ behind.length + valueOf behind := by
  have fold : ∀ start, behind.foldl (fun n d => n * 10 + d) start =
      start * 10 ^ behind.length + valueOf behind := by
    induction behind with
    | nil => simp [valueOf]
    | cons d rest ih =>
        intro start
        have hcons : valueOf (d :: rest) = (0 * 10 + d) * 10 ^ rest.length + valueOf rest := ih _
        rw [List.foldl_cons, ih, hcons, List.length_cons]
        ring
  rw [valueOf, List.foldl_append]
  exact fold _

theorem valueOf_replicate (k : Nat) : valueOf (List.replicate k 0) = 0 := by
  induction k with
  | zero => rfl
  | succ k ih => exact ih

/-- The number that a literal stands for, without its sign. -/
def magnitude (n : JsonNumber) : ℚ :=
  valueOf (n.whole ++ n.fraction) * 10 ^ (n.exponent.getD 0 - n.fraction.length)

theorem magnitude_ofDecimal (negative : Bool) (d : Decimal) :
    (ofDecimal negative d).magnitude = d.value := by
  have hvalue := valueOf_digitsOf d.digits
  unfold ofDecimal Decimal.value
  extract_lets digits leading places
  have hlength : 0 < digits.length := List.length_pos_iff.2 (digitsOf_ne_nil _)
  replace hvalue : valueOf digits = d.digits := hvalue
  split
  · next hzero => simp [magnitude, valueOf, hzero]
  split
  · have hexponent : leading - (digits.drop 1).length = d.exponent := by
      rw [List.length_drop]
      omega
    simp only [magnitude, List.take_append_drop, hvalue, Option.getD_some, hexponent]
  split
  · next hsmall =>
      have hexponent : (0 : Int) - (List.replicate (-leading - 1).toNat 0 ++ digits).length =
          d.exponent := by
        rw [List.length_append, List.length_replicate]
        omega
      simp only [magnitude, Option.getD_none, hexponent]
      rw [← List.append_assoc, valueOf_append, hvalue, valueOf_append, valueOf_replicate]
      simp [valueOf]
  split
  · next hfits =>
      have hexponent : ((places - digits.length : Nat) : Int) = d.exponent := by omega
      simp only [magnitude, Option.getD_none, valueOf_append, hvalue, valueOf_replicate,
        List.length_replicate, List.length_singleton, ← hexponent, zpow_natCast]
      simp [valueOf]
  · next hfits =>
      have hexponent : (0 : Int) - (digits.drop places).length = d.exponent := by
        rw [List.length_drop]
        omega
      simp only [magnitude, List.take_append_drop, hvalue, Option.getD_none, hexponent]

theorem negative_ofDecimal (negative : Bool) (d : Decimal) :
    (ofDecimal negative d).negative = negative := by
  unfold ofDecimal
  extract_lets digits leading places
  split <;> [rfl; split <;> [rfl; split <;> [rfl; split <;> rfl]]]

end JsonNumber

namespace Json

/-- No two finite doubles are written alike. -/
theorem ofFloat_injective {x y : Float} (hx : isFiniteNumber x) (hy : isFiniteNumber y)
    (h : ofFloat x = ofFloat y) : x = y := by
  unfold isFiniteNumber at hx hy
  unfold ofFloat at h
  cases hbx : Binary.ofFloat x with
  | infinite => simp [hbx] at hx
  | notANumber => simp [hbx] at hx
  | finite negative m q =>
      cases hby : Binary.ofFloat y with
      | infinite => simp [hby] at hy
      | notANumber => simp [hby] at hy
      | finite negative' m' q' =>
          simp only [hbx, hby, number.injEq] at h
          have hnegative := congrArg JsonNumber.negative h
          have hmagnitude := congrArg JsonNumber.magnitude h
          rw [JsonNumber.negative_ofDecimal, JsonNumber.negative_ofDecimal] at hnegative
          rw [JsonNumber.magnitude_ofDecimal, JsonNumber.magnitude_ofDecimal] at hmagnitude
          obtain ⟨rfl, rfl⟩ := Decimal.eq_of_shortest (Binary.canonical_of_ofBits hbx)
            (Binary.canonical_of_ofBits hby) hmagnitude
          exact Binary.ofFloat_injective hbx (hnegative ▸ hby)

/-- The double that a value is, for any reader of literals. -/
def floatBy? (read : JsonNumber → Option Float) : Json → Option Float
  | .number n => read n
  | _ => none

theorem floatBy?_eq_none {x : Float} (h : isFiniteNumber x = false)
    (read : JsonNumber → Option Float) : floatBy? read (ofFloat x) = none := by
  unfold isFiniteNumber at h
  unfold ofFloat
  cases hx : Binary.ofFloat x with
  | finite negative m q => simp [hx] at h
  | infinite negative => rfl
  | notANumber => rfl

theorem exists_reader : ∃ read : JsonNumber → Option Float,
    ∀ x, isFiniteNumber x → floatBy? read (ofFloat x) = some x := by
  classical
  refine ⟨fun n => if h : ∃ x, isFiniteNumber x ∧ ofFloat x = .number n then some h.choose else none,
    fun x hx => ?_⟩
  obtain ⟨n, hn⟩ : ∃ n, ofFloat x = .number n := by
    unfold isFiniteNumber at hx
    unfold ofFloat
    split
    · exact ⟨_, rfl⟩
    · next hother => simp_all
  have hwritten : ∃ x, isFiniteNumber x ∧ ofFloat x = .number n := ⟨x, hx, hn⟩
  rw [hn, floatBy?, dif_pos hwritten]
  exact congrArg some (ofFloat_injective hwritten.choose_spec.1 hx
    (hwritten.choose_spec.2.trans hn.symm))

end Json

end Cadence
