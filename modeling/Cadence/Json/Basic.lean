import Cadence.Decimal.Shortest

/-!
JSON values.

A number is kept as it is written, so that a reader can ask for a whole number
or for a double and gets exactly what the digits say.  An object keeps its
fields in order, repeated names included.
-/

namespace Cadence

/-- A number literal: sign, digits before and after the point, and the power of ten. -/
structure JsonNumber where
  negative : Bool
  whole : List Nat
  fraction : List Nat
  exponent : Option Int
  deriving DecidableEq, Repr

inductive Json where
  | null
  | bool (value : Bool)
  | number (value : JsonNumber)
  | string (value : String)
  /-- A string literal with a surrogate that stands alone: well-formed, but no text. -/
  | unpaired
  | list (items : List Json)
  | object (fields : List (String × Json))
  deriving Inhabited

namespace JsonNumber

def digitsOf (n : Nat) : List Nat :=
  (Nat.toDigits 10 n).map (fun c => c.toNat - '0'.toNat)

def ofInt (n : Int) : JsonNumber :=
  { negative := n < 0, whole := digitsOf n.natAbs, fraction := [], exponent := none }

def ofNat (n : Nat) : JsonNumber := ofInt n

/--
A double is written with the fewest digits that read back: positionally if its
leading digit stands for a power of ten from `10 ^ -5` to `10 ^ 15`, and with an
exponent otherwise.  A positional number keeps at least one decimal place.
-/
def ofDecimal (negative : Bool) (d : Decimal) : JsonNumber :=
  let digits := digitsOf d.digits
  let leading := d.exponent + digits.length - 1
  if d.digits = 0 then ⟨negative, [0], [0], none⟩
  else if leading < -5 ∨ 15 < leading then
    ⟨negative, digits.take 1, digits.drop 1, some leading⟩
  else if leading < 0 then
    ⟨negative, [0], List.replicate (-leading - 1).toNat 0 ++ digits, none⟩
  else
    let places := (leading + 1).toNat
    if digits.length ≤ places then
      ⟨negative, digits ++ List.replicate (places - digits.length) 0, [0], none⟩
    else ⟨negative, digits.take places, digits.drop places, none⟩

end JsonNumber

namespace Json

def ofNat (n : Nat) : Json := .number (.ofNat n)

def ofInt (n : Int) : Json := .number (.ofInt n)

/-- Infinities and not-a-number have no literal and become `null`. -/
def ofFloat (x : Float) : Json :=
  match Binary.ofFloat x with
  | .finite negative mantissa exponent =>
      .number (.ofDecimal negative (.shortest mantissa exponent))
  | _ => .null

end Json

end Cadence
