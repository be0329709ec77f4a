import Cadence.Decimal.Basic

/-!
The shortest decimal that reads back as a given double.

The reals that round to `m · 2 ^ q` form an interval around it, which holds its
ends exactly if `m` is even.  A decimal grid of spacing `10 ^ e` has two points
next to the value, and if any point of the grid lies in the interval then one of
these two does.  So the grids are tried from the coarsest on, and the first hit
has the fewest digits; of two hits the nearer one is taken.
-/

namespace Cadence.Decimal

/-- The reals that round to a double, scaled by `unit` so that all three are whole. -/
structure Interval where
  low : Nat
  value : Nat
  high : Nat
  unit : Nat
  closed : Bool
  deriving DecidableEq, Repr

/--
The gap below a power of two is half the gap above it, except at the bottom of
the range.  Quarters of a step make all bounds whole numbers.
-/
def Interval.around (mantissa : Nat) (exponent : Int) : Interval :=
  let below := if mantissa = Nat.pow 2 52 ∧ -1074 < exponent then 1 else 2
  let scale := Nat.pow 2 (exponent - 2).toNat
  { low := (4 * mantissa - below) * scale
    value := 4 * mantissa * scale
    high := (4 * mantissa + 2) * scale
    unit := Nat.pow 2 (2 - exponent).toNat
    closed := mantissa % 2 = 0 }

def Interval.holds (i : Interval) (x : Nat) : Bool :=
  if i.closed then i.low ≤ x && x ≤ i.high else i.low < x && x < i.high

/-- The grid point in the interval next to the value, on the grid of spacing `10 ^ e`. -/
def Interval.hit? (i : Interval) (e : Int) : Option Nat :=
  let spacing := i.unit * Nat.pow 10 e.toNat
  let scaled (x : Nat) := x * Nat.pow 10 (-e).toNat
  let value := scaled i.value
  let floor := value / spacing
  let inside (n : Nat) :=
    ({ i with low := scaled i.low, value := value, high := scaled i.high }).holds (n * spacing)
  match inside floor, inside (floor + 1) with
  | true, true =>
      let down := value - floor * spacing
      let up := (floor + 1) * spacing - value
      if down < up ∨ (down = up ∧ floor % 2 = 0) then some floor else some (floor + 1)
  | true, false => some floor
  | false, true => some (floor + 1)
  | false, false => none

/-- The power of ten of the leading digit of `num / den`, for `0 < num`. -/
def leadingPower (num den : Nat) : Int :=
  if den ≤ num then ((Nat.toDigits 10 (num / den)).length : Int) - 1
  else -((Nat.toDigits 10 ((den - 1) / num)).length : Int)

/-- Tries the grids of spacing `10 ^ e`, `10 ^ (e - 1)`, … -/
def Interval.search (i : Interval) (e : Int) : Nat → Option Decimal
  | 0 => none
  | tries + 1 =>
      match i.hit? e with
      | some n => some ⟨n, e⟩
      | none => i.search (e - 1) tries

/-- Drops trailing zeros of the significand; `fuel` bounds their number. -/
def trim (d : Decimal) : Nat → Decimal
  | 0 => d
  | fuel + 1 =>
      if d.digits % 10 = 0 ∧ d.digits ≠ 0 then trim ⟨d.digits / 10, d.exponent + 1⟩ fuel else d

/-- Seventeen digits always suffice; one grid more lies above the leading digit. -/
def shortest (mantissa : Nat) (exponent : Int) : Decimal :=
  if mantissa = 0 then ⟨0, 0⟩
  else
    let i := Interval.around mantissa exponent
    let top := leadingPower i.value i.unit + 1
    match i.search top 19 with
    | some d => d.trim 20
    | none => ⟨0, 0⟩

end Cadence.Decimal
