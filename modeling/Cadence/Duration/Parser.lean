import Cadence.Duration.Basic
import Cadence.Text.Basic

/-!
Reading durations such as `1m 30s` or `1.5h`.

A duration is one or more numbers with a unit each.  White space may stand
anywhere but inside a unit.  The reader goes through the characters once; what
it has read of the current component is its state.  All sums and products have
to fit in 64 bits, and a fraction has to come out even.
-/

namespace Cadence.Duration

inductive Unit where
  | nanosecond
  | microsecond
  | millisecond
  | second
  | minute
  | hour
  | day
  | week
  | month
  | year
  deriving DecidableEq, Repr

inductive ParseError where
  | invalidCharacter (offset : Nat)
  | numberExpected (offset : Nat)
  | unknownUnit (unit : String) (value : Nat)
  | overflow
  | empty
  deriving DecidableEq, Repr

def ParseError.message : ParseError → String
  | .invalidCharacter offset => s!"invalid character at {offset}"
  | .numberExpected offset => s!"expected number at {offset}"
  | .unknownUnit unit value =>
      if unit.isEmpty then s!"time unit needed, for example {value}sec or {value}ms"
      else
        "unknown time unit " ++ Text.quoted unit ++
          ", supported units: ns, us/µs, ms, sec, min, hours, days, weeks, months, years" ++
          " (and few variations)"
  | .overflow =>
      "number is too large or cannot be represented without a lack of precision" ++
        " (values below 1ns are not supported)"
  | .empty => "value was empty"

def Unit.ofName? (name : String) : Option Unit :=
  if name ∈ ["nanos", "nsec", "ns"] then some .nanosecond
  else if name ∈ ["usec", "us", "µs"] then some .microsecond
  else if name ∈ ["millis", "msec", "ms"] then some .millisecond
  else if name ∈ ["seconds", "second", "secs", "sec", "s"] then some .second
  else if name ∈ ["minutes", "minute", "mins", "min", "m"] then some .minute
  else if name ∈ ["hours", "hour", "hrs", "hr", "h"] then some .hour
  else if name ∈ ["days", "day", "d"] then some .day
  else if name ∈ ["weeks", "week", "wks", "wk", "w"] then some .week
  else if name ∈ ["months", "month", "M"] then some .month
  else if name ∈ ["years", "year", "yrs", "yr", "y"] then some .year
  else none

/-- How a unit counts: in nanoseconds for an integer below a second, in seconds from there on. -/
inductive Scale where
  | nanos (perUnit : Nat)
  | secs (perUnit : Nat)
  deriving DecidableEq, Repr

def Unit.scale : Unit → Scale
  | .nanosecond => .nanos 1
  | .microsecond => .nanos 1000
  | .millisecond => .nanos 1000000
  | .second => .secs 1
  | .minute => .secs 60
  | .hour => .secs 3600
  | .day => .secs 86400
  | .week => .secs (7 * 86400)
  | .month => .secs 2630016
  | .year => .secs 31557600

/-- How a fraction of a unit counts; a nanosecond has none. -/
def Unit.fractionScale : Unit → Option Scale
  | .nanosecond => none
  | .second => some (.nanos 1000000000)
  | .minute => some (.nanos 60000000000)
  | u => some u.scale

def checked (n : Nat) : Except ParseError Nat :=
  if n < UInt64.size then .ok n else .error .overflow

/-- The total with `secs` and `nanos` more. -/
def addChecked (total : Duration) (secs nanos : Nat) : Except ParseError Duration := do
  let nanos ← checked (total.nanos + nanos)
  let secs ← checked (secs + nanos / 1000000000)
  let secs ← checked (total.secs + secs)
  return ⟨secs, nanos % 1000000000, mod_second_lt nanos⟩

structure Fraction where
  numerator : Nat
  denominator : Nat
  deriving DecidableEq, Repr

/-- The total with one component more. -/
def addComponent (total : Duration) (n : Nat) (fraction : Option Fraction) (name : String) :
    Except ParseError Duration := do
  let some unit := Unit.ofName? name | throw (.unknownUnit name n)
  let total ← match unit.scale with
    | .nanos perUnit => do addChecked total 0 (← checked (n * perUnit))
    | .secs perUnit => do addChecked total (← checked (n * perUnit)) 0
  let some f := fraction | return total
  let some scale := unit.fractionScale | throw .overflow
  let part (perUnit : Nat) : Except ParseError Nat := do
    let product ← checked (f.numerator * perUnit)
    if product % f.denominator = 0 then return product / f.denominator else throw .overflow
  match scale with
  | .nanos perUnit => addChecked total 0 (← part perUnit)
  | .secs perUnit => addChecked total (← part perUnit) 0

/-- What has been read of the current component. -/
inductive Reading where
  /-- A number is due; an error names the offset `start`. -/
  | number (start : Nat)
  | whole (n : Nat)
  /-- Behind the point; an error names the offset `mark`. -/
  | fraction (n : Nat) (f : Fraction) (mark : Nat)
  /-- In a unit, whose letters are given last first. -/
  | unit (n : Nat) (f : Option Fraction) (letters : List Char)
  deriving DecidableEq, Repr

structure ParseState where
  total : Duration
  reading : Reading
  offset : Nat
  /-- Whether any number has been read. -/
  started : Bool
  deriving DecidableEq, Repr

def isUnitLetter (c : Char) : Bool := c.isAlpha || c = 'µ'

def digitValue (c : Char) : Nat := c.toNat - '0'.toNat

def readChar (s : ParseState) (c : Char) : Except ParseError ParseState := do
  let behind := s.offset + c.utf8Size
  match s.reading with
  | .number start =>
      if c.isDigit then return { s with reading := .whole (digitValue c), offset := behind, started := true }
      else if Text.isBlank c then return { s with offset := behind }
      else throw (.numberExpected start)
  | .whole n =>
      if c.isDigit then
        return { s with reading := .whole (← checked (n * 10 + digitValue c)), offset := behind }
      else if Text.isBlank c then return { s with offset := behind }
      else if isUnitLetter c then return { s with reading := .unit n none [c], offset := behind }
      else if c = '.' then return { s with reading := .fraction n ⟨0, 1⟩ s.offset, offset := behind }
      else throw (.invalidCharacter s.offset)
  | .fraction n f mark =>
      if c.isDigit then
        let denominator ← checked (f.denominator * 10)
        let numerator ← checked (f.numerator * 10 + digitValue c)
        return { s with reading := .fraction n ⟨numerator, denominator⟩ behind, offset := behind }
      else if Text.isBlank c then return { s with reading := .fraction n f behind, offset := behind }
      else if isUnitLetter c && f.denominator ≠ 1 then
        return { s with reading := .unit n (some f) [c], offset := behind }
      else throw (.invalidCharacter mark)
  | .unit n f letters =>
      if c.isDigit then
        let total ← addComponent s.total n f (String.ofList letters.reverse)
        return { s with total, reading := .whole (digitValue c), offset := behind }
      else if Text.isBlank c then
        let total ← addComponent s.total n f (String.ofList letters.reverse)
        return { s with total, reading := .number behind, offset := behind }
      else if isUnitLetter c then
        return { s with reading := .unit n f (c :: letters), offset := behind }
      else throw (.invalidCharacter s.offset)

def readEnd (s : ParseState) : Except ParseError Duration :=
  match s.reading with
  | .number _ => if s.started then .ok s.total else .error .empty
  | .whole n => .error (.unknownUnit "" n)
  | .fraction n f mark =>
      if f.denominator = 1 then .error (.invalidCharacter mark) else .error (.unknownUnit "" n)
  | .unit n f letters => addComponent s.total n f (String.ofList letters.reverse)

/-- Reads a duration; the text `0` alone is zero. -/
def parse (text : String) : Except ParseError Duration := do
  if text = "0" then return zero
  readEnd (← text.toList.foldlM readChar ⟨zero, .number 0, 0, false⟩)

end Cadence.Duration
