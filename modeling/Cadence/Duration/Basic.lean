/-!
Spans of time in whole nanoseconds, and how a message shows one.
-/

namespace Cadence

/-- Seconds and the nanoseconds beyond them. -/
structure Duration where
  secs : Nat
  nanos : Nat
  nanos_lt : nanos < 1000000000 := by omega
  deriving DecidableEq, Repr

namespace Duration

theorem mod_second_lt (n : Nat) : n % 1000000000 < 1000000000 := Nat.mod_lt n (by decide)

def ofNanos (n : Nat) : Duration where
  secs := n / 1000000000
  nanos := n % 1000000000
  nanos_lt := mod_second_lt n

def toNanos (d : Duration) : Nat := d.secs * 1000000000 + d.nanos

def ofMillis (n : Nat) : Duration := ofNanos (n * 1000000)

def ofSecs (n : Nat) : Duration := ⟨n, 0, by decide⟩

def zero : Duration := ofSecs 0

instance : Inhabited Duration := ⟨zero⟩

def isZero (d : Duration) : Bool := d.secs = 0 && d.nanos = 0

/-- Milliseconds until the span is over, a started one counted in full. -/
def toMillisCeil (d : Duration) : Nat := (d.toNanos + 999999) / 1000000

/-- `n` with `places` digits behind the point, trailing zeros and a bare point left out. -/
def renderPlaces (whole n places : Nat) : String :=
  let digits := Nat.toDigits 10 n
  let padded := List.replicate (places - digits.length) '0' ++ digits
  let kept := (padded.reverse.dropWhile (· = '0')).reverse
  toString whole ++ (if kept.isEmpty then "" else "." ++ String.ofList kept)

/-- Shows a span in the largest of s, ms, µs and ns that it reaches. -/
def render (d : Duration) : String :=
  if 0 < d.secs then renderPlaces d.secs d.nanos 9 ++ "s"
  else if 1000000 ≤ d.nanos then
    renderPlaces (d.nanos / 1000000) (d.nanos % 1000000) 6 ++ "ms"
  else if 1000 ≤ d.nanos then
    renderPlaces (d.nanos / 1000) (d.nanos % 1000) 3 ++ "µs"
  else toString d.nanos ++ "ns"

end Duration

end Cadence
