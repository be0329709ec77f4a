import Cadence.Text.Basic
import Cadence.Time.Date

/-!
Instants of Universal Time and their written form.

An instant is written as date, `T`, time of day and `Z`, with as many groups of
three decimal places as the fraction needs.  A reader takes more: blanks around
the parts, a blank or `t` for the `T`, any number of decimal places, and an
offset from Universal Time.  A leap second is the 61st second of a minute and is
kept as a fraction of one second or more.
-/

namespace Cadence

structure Utc where
  date : Date
  /-- Seconds since midnight. -/
  second : Nat
  nanos : Nat
  second_lt : second < 86400
  nanos_lt : nanos < 1000000000 ∨ (second % 60 = 59 ∧ nanos < 2000000000)
  deriving DecidableEq, Repr

namespace Utc

/-- The start of 1970. -/
def epoch : Utc := ⟨default, 0, 0, by decide, by decide⟩

instance : Inhabited Utc := ⟨epoch⟩

/-- The instant `millis` after the start of 1970. -/
def ofMillis (millis : Nat) : Utc where
  date := (millis / 86400000).repeat Date.next default
  second := millis / 1000 % 86400
  nanos := millis % 1000 * 1000000
  second_lt := Nat.mod_lt _ (by decide)
  nanos_lt := by have := Nat.mod_lt millis (show 0 < 1000 by decide); omega

/-- `n` in at least `width` digits. -/
def padded (width n : Nat) : List Char :=
  let digits := Nat.toDigits 10 n
  List.replicate (width - digits.length) '0' ++ digits

/-- Four digits, or a sign and at least four. -/
def renderYear (year : Int) : List Char :=
  if year < 0 then '-' :: padded 4 year.natAbs
  else if year ≤ 9999 then padded 4 year.toNat
  else '+' :: padded 4 year.toNat

def renderDate (d : Date) : List Char :=
  renderYear d.year ++ '-' :: padded 2 d.month ++ '-' :: padded 2 d.day

def renderTime (second nanos : Nat) : List Char :=
  padded 2 (second / 3600) ++ ':' :: padded 2 (second / 60 % 60) ++
    ':' :: padded 2 (second % 60 + nanos / 1000000000)

def renderFraction (nanos : Nat) : List Char :=
  if nanos = 0 then []
  else if nanos % 1000000 = 0 then '.' :: padded 3 (nanos / 1000000)
  else if nanos % 1000 = 0 then '.' :: padded 6 (nanos / 1000)
  else '.' :: padded 9 nanos

def render (t : Utc) : String :=
  String.ofList (renderDate t.date ++ 'T' :: renderTime t.second t.nanos ++
    renderFraction (t.nanos % 1000000000) ++ ['Z'])

/-- Date, a blank, time of day and the zone. -/
def renderPlain (t : Utc) : String :=
  String.ofList (renderDate t.date ++ ' ' :: renderTime t.second t.nanos ++
    renderFraction (t.nanos % 1000000000) ++ " UTC".toList)

/-- A number of at most `width` digits in front, after blanks. -/
def number? (width : Nat) (cs : List Char) : Option (Nat × List Char) :=
  let cs := Text.trimStart cs
  let digits := (cs.take width).takeWhile Char.isDigit
  if digits.isEmpty then none
  else
    some (digits.foldl (fun n c => n * 10 + (c.toNat - '0'.toNat)) 0, cs.drop digits.length)

/-- Four digits at most, or any number of them behind a sign. -/
def year? (cs : List Char) : Option (Int × List Char) :=
  let magnitude (width : Nat) (cs : List Char) : Option (Nat × List Char) :=
    if cs.head?.any Char.isDigit then number? width cs else none
  match Text.trimStart cs with
  | '-' :: rest => (magnitude rest.length rest).map (fun (n, rest) => (-(n : Int), rest))
  | '+' :: rest => (magnitude rest.length rest).map (fun (n, rest) => ((n : Int), rest))
  | cs => (number? 4 cs).map (fun (n, rest) => ((n : Int), rest))

/-- Passes `c` after blanks. -/
def expect? (c : Char) (cs : List Char) : Option (List Char) :=
  match Text.trimStart cs with
  | c' :: rest => if c = c' then some rest else none
  | [] => none

def date? (cs : List Char) : Option (Date × List Char) := do
  let (year, cs) ← year? cs
  if year < -262143 ∨ 262142 < year then failure
  let (month, cs) ← number? 2 (← expect? '-' cs)
  let (day, cs) ← number? 2 (← expect? '-' cs)
  return (← Date.ofParts? year month day, cs)

/-- The decimal places behind a point, in nanoseconds; further ones are cut off. -/
def fraction? (cs : List Char) : Option (Nat × List Char) :=
  match cs with
  | '.' :: rest => do
      let (n, _) ← if rest.head?.any Char.isDigit then number? 9 rest else none
      let places := (rest.takeWhile Char.isDigit).length
      return (n * Nat.pow 10 (9 - places), rest.drop places)
  | _ => some (0, cs)

/-- Hours, minutes, seconds up to 60 and nanoseconds. -/
def time? (cs : List Char) : Option ((Nat × Nat × Nat × Nat) × List Char) := do
  let (hours, cs) ← number? 2 cs
  let (minutes, cs) ← number? 2 (← expect? ':' cs)
  let (seconds, cs) ← number? 2 (← expect? ':' cs)
  let (nanos, cs) ← fraction? cs
  if hours < 24 ∧ minutes < 60 ∧ seconds ≤ 60 then return ((hours, minutes, seconds, nanos), cs)
  else failure

def twoDigits? (cs : List Char) : Option (Nat × List Char) :=
  match cs with
  | a :: b :: rest =>
      if a.isDigit && b.isDigit then
        some ((a.toNat - '0'.toNat) * 10 + (b.toNat - '0'.toNat), rest)
      else none
  | _ => none

/-- The offset east of Universal Time in minutes. -/
def offset? (cs : List Char) : Option (Int × List Char) :=
  let behindSign (sign : Int) (cs : List Char) : Option (Int × List Char) := do
    let (hours, cs) ← twoDigits? cs
    let (minutes, cs) ← twoDigits? (cs.dropWhile (fun c => c = ':' || Text.isBlank c))
    if hours < 24 ∧ minutes < 60 then return (sign * (hours * 60 + minutes : Nat), cs)
    else failure
  match Text.trimStart cs with
  | 'Z' :: rest | 'z' :: rest => some (0, rest)
  | '+' :: rest => behindSign 1 rest
  | '-' :: rest | '\u2212' :: rest => behindSign (-1) rest
  | u :: t :: c :: rest =>
      if [u, t, c].map Char.toUpper = ['U', 'T', 'C'] then some (0, rest) else none
  | _ => none

/-- The instant at which a clock `offset` minutes east shows this date and time. -/
def ofLocal? (date : Date) (hours minutes seconds nanos : Nat) (offset : Int) : Option Utc :=
  let minute := (hours * 60 + minutes : Nat) - offset
  let date := if minute < 0 then date.previous else if 1440 ≤ minute then date.next else date
  let leap := if seconds = 60 then 1 else 0
  let second := (minute % 1440).toNat * 60 + (seconds - leap)
  let nanos := nanos + leap * 1000000000
  if h : second < 86400 ∧ (nanos < 1000000000 ∨ (second % 60 = 59 ∧ nanos < 2000000000)) then
    some ⟨date, second, nanos, h.1, h.2⟩
  else none

def parse? (text : String) : Option Utc := do
  let (date, cs) ← date? text.toList
  let mark :: cs := cs | failure
  if mark ≠ 'T' ∧ mark ≠ 't' ∧ mark ≠ ' ' then failure
  let ((hours, minutes, seconds, nanos), cs) ← time? cs
  let (offset, cs) ← offset? cs
  if !(Text.trimStart cs).isEmpty then failure
  ofLocal? date hours minutes seconds nanos offset

/--
The nanoseconds from `a` to `b`.  A leap second lies behind the second that it
extends, and of two days only the days between them are counted.
-/
def nanosUntil (a b : Utc) : Int :=
  let days := b.date.number - a.date.number
  let leap : Int :=
    if a.second < b.second ∧ 1000000000 ≤ a.nanos then 1
    else if b.second < a.second ∧ 1000000000 ≤ b.nanos then -1
    else 0
  (days * 86400 + ((b.second : Int) - a.second) + leap) * 1000000000 + ((b.nanos : Int) - a.nanos)

/-- The whole milliseconds from `a` to `b`. -/
def millisUntil (a b : Utc) : Int := (nanosUntil a b).tdiv 1000000

end Utc

end Cadence
