/-!
Decimal numbers and the binary value of a double.

`Decimal` is a significand with a power of ten.  `Binary` is the exact value
that the bits of a double stand for, on which all questions of rounding are
decided in whole numbers.
-/

namespace Cadence

/-- The number `digits · 10 ^ exponent`. -/
structure Decimal where
  digits : Nat
  exponent : Int
  deriving DecidableEq, Repr

/-- What the bits of a double say: a sign with `mantissa · 2 ^ exponent`, an infinity, or no number. -/
inductive Binary where
  | finite (negative : Bool) (mantissa : Nat) (exponent : Int)
  | infinite (negative : Bool)
  | notANumber
  deriving DecidableEq, Repr

namespace Binary

/-- Splits the 64 bits into sign, exponent and fraction. -/
def ofBits (bits : Nat) : Binary :=
  let negative := bits / Nat.pow 2 63 % 2 == 1
  let biased : Nat := bits / Nat.pow 2 52 % Nat.pow 2 11
  let fraction := bits % Nat.pow 2 52
  if biased = 2047 then
    if fraction = 0 then .infinite negative else .notANumber
  else if biased = 0 then .finite negative fraction (-1074)
  else .finite negative (fraction + Nat.pow 2 52) (Int.ofNat biased - 1075)

def ofFloat (x : Float) : Binary := ofBits x.toBits.toNat

end Binary

/-- Whether a double is neither infinite nor not-a-number. -/
def isFiniteNumber (x : Float) : Bool :=
  match Binary.ofFloat x with
  | .finite .. => true
  | _ => false

end Cadence
