import Cadence.Json.Basic

/-!
What a number literal stands for.

Whole numbers are read exactly.  A double is read in one pass: as many leading
digits as fit in 64 bits form the significand, the digits after them only move
the point, and the significand is scaled once by a power of ten.  This is off by
at most a last place from the nearest double, and exact where both factors are.
-/

namespace Cadence.JsonNumber

def valueOf (digits : List Nat) : Nat :=
  digits.foldl (fun n d => n * 10 + d) 0

def isWhole (n : JsonNumber) : Bool :=
  n.fraction.isEmpty && n.exponent.isNone

/-- A whole number of 64 bits without sign; `-0` is none. -/
def toUnsigned? (n : JsonNumber) : Option Nat :=
  if n.isWhole && !n.negative && valueOf n.whole < UInt64.size then some (valueOf n.whole) else none

/-- Any whole number literal; `-0` is none. -/
def toInt? (n : JsonNumber) : Option Int :=
  let value := valueOf n.whole
  if !n.isWhole then none
  else if !n.negative then some value
  else if value = 0 then none
  else some (-(value : Int))

/-- The digits taken up so far, as a 64-bit significand. -/
structure Significand where
  value : Nat
  /-- Digits of the whole part that no longer fitted. -/
  dropped : Nat
  /-- Decimal places taken up. -/
  places : Nat
  deriving DecidableEq, Repr

/-- Takes up whole digits until one does not fit; from there on digits only count. -/
def takeWhole : Nat → List Nat → Significand
  | value, [] => ⟨value, 0, 0⟩
  | value, d :: rest =>
      if value * 10 + d < UInt64.size then takeWhole (value * 10 + d) rest
      else ⟨value, rest.length + 1, 0⟩

/-- Takes up decimal places until one does not fit; the rest is left out. -/
def takeFraction : Significand → List Nat → Significand
  | s, [] => s
  | s, d :: rest =>
      if s.value * 10 + d < UInt64.size then
        takeFraction ⟨s.value * 10 + d, s.dropped, s.places + 1⟩ rest
      else s

/-- The power of ten `10 ^ n` as a double. -/
def power (n : Nat) : Float := Float.ofScientific 1 false n

/-- Divides by `10 ^ 308` as long as the exponent asks for more than one power of that size. -/
def scaleDown : Nat → Float → Nat → Float
  | 0, x, _ => x
  | fuel + 1, x, n =>
      if n ≤ 308 then x / power n
      else if x == 0.0 then x
      else scaleDown fuel (x / power 308) (n - 308)

/-- `value · 10 ^ exponent`, unless it is too large for a double. -/
def scale (value : Nat) (exponent : Int) : Option Float :=
  let x := Float.ofNat value
  if exponent < 0 then some (scaleDown 8 x exponent.natAbs)
  else if exponent ≤ 308 then
    let y := x * power exponent.toNat
    if y.isInf then none else some y
  else if value = 0 then some x
  else none

/-- An exponent of more than 31 bits makes the number zero, or too large. -/
def toMagnitude? (n : JsonNumber) : Option Float :=
  let s := takeFraction (takeWhole 0 n.whole) n.fraction
  let base : Int := (s.dropped : Int) - s.places
  match n.exponent with
  | none => scale s.value base
  | some e =>
      if e.natAbs < Nat.pow 2 31 then scale s.value (base + e)
      else if s.value ≠ 0 ∧ 0 < e then none
      else some 0.0

/-- The double a literal is read as; none if it is too large for one. -/
def toFloat? (n : JsonNumber) : Option Float :=
  n.toMagnitude?.map (fun x => if n.negative then -x else x)

end Cadence.JsonNumber
