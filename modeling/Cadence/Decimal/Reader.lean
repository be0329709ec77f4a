import Cadence.Decimal.Basic

/-!
Doubles from decimal text.

A number has a sign or none, digits with a point among or around them, and
perhaps a power of ten.  It reads as the nearest double.  The words for infinity
and not-a-number are numbers here.
-/

namespace Cadence

namespace Decimal

/-- The nearest double; beyond the range it is infinite or zero. -/
def toFloat (d : Decimal) : Float :=
  let magnitude := d.exponent + (Nat.toDigits 10 d.digits).length
  if d.digits = 0 ∨ magnitude < -400 then 0.0
  else if 400 < magnitude then 1.0 / 0.0
  else Float.ofScientific d.digits (d.exponent < 0) d.exponent.natAbs

def digitsValue (cs : List Char) : Nat :=
  cs.foldl (fun n c => n * 10 + (c.toNat - '0'.toNat)) 0

def splitSign : List Char → Bool × List Char
  | '+' :: rest => (false, rest)
  | '-' :: rest => (true, rest)
  | cs => (false, cs)

/-- What follows the digits: nothing, or `e` with a sign or none and at least one digit. -/
def power? (cs : List Char) : Option Int :=
  match cs with
  | [] => some 0
  | mark :: rest =>
      let (negative, digits) := splitSign rest
      if (mark = 'e' || mark = 'E') && !digits.isEmpty && digits.all Char.isDigit then
        some (if negative then -(digitsValue digits : Int) else digitsValue digits)
      else none

/-- Digits with at most one point among or around them, and perhaps a power of ten. -/
def ofChars? (cs : List Char) : Option Decimal :=
  let whole := cs.takeWhile Char.isDigit
  let behind := cs.drop whole.length
  let places := if behind.head? = some '.' then (behind.drop 1).takeWhile Char.isDigit else []
  let rest := if behind.head? = some '.' then behind.drop (1 + places.length) else behind
  if whole.isEmpty && places.isEmpty then none
  else (power? rest).map (fun e => ⟨digitsValue (whole ++ places), e - places.length⟩)

end Decimal

/-- The double that a text stands for, without white space around it. -/
def parseFloat? (text : String) : Option Float :=
  let (negative, cs) := Decimal.splitSign text.toList
  let word := String.ofList (cs.map Char.toLower)
  let magnitude :=
    if word = "inf" || word = "infinity" then some (1.0 / 0.0)
    else if word = "nan" then some (0.0 / 0.0)
    else (Decimal.ofChars? cs).map Decimal.toFloat
  magnitude.map (fun x => if negative then -x else x)

end Cadence
