/-!
Days of the Gregorian calendar, extended to all years.
-/

namespace Cadence

def isLeapYear (year : Int) : Bool := year % 4 = 0 && (year % 100 ≠ 0 || year % 400 = 0)

def daysIn (year : Int) (month : Nat) : Nat :=
  match month with
  | 2 => if isLeapYear year then 29 else 28
  | 4 | 6 | 9 | 11 => 30
  | _ => 31

theorem daysIn_ge (year : Int) (month : Nat) : 28 ≤ daysIn year month := by
  unfold daysIn
  split <;> try split
  all_goals decide

structure Date where
  year : Int
  month : Nat
  day : Nat
  month_mem : 1 ≤ month ∧ month ≤ 12 := by decide
  day_mem : 1 ≤ day ∧ day ≤ daysIn year month := by decide
  deriving DecidableEq, Repr

namespace Date

instance : Inhabited Date := ⟨{ year := 1970, month := 1, day := 1 }⟩

def ofParts? (year : Int) (month day : Nat) : Option Date :=
  if hm : 1 ≤ month ∧ month ≤ 12 then
    if hd : 1 ≤ day ∧ day ≤ daysIn year month then some ⟨year, month, day, hm, hd⟩ else none
  else none

def next (d : Date) : Date :=
  if h : d.day < daysIn d.year d.month then
    ⟨d.year, d.month, d.day + 1, d.month_mem, ⟨by omega, h⟩⟩
  else if h : d.month < 12 then
    ⟨d.year, d.month + 1, 1, ⟨by omega, by omega⟩,
      ⟨by omega, by have := daysIn_ge d.year (d.month + 1); omega⟩⟩
  else ⟨d.year + 1, 1, 1, by decide, ⟨by omega, by have := daysIn_ge (d.year + 1) 1; omega⟩⟩

def previous (d : Date) : Date :=
  if h : 1 < d.day then
    ⟨d.year, d.month, d.day - 1, d.month_mem, ⟨by omega, by have := d.day_mem; omega⟩⟩
  else if h : 1 < d.month then
    ⟨d.year, d.month - 1, daysIn d.year (d.month - 1), by have := d.month_mem; omega,
      ⟨by have := daysIn_ge d.year (d.month - 1); omega, Nat.le_refl _⟩⟩
  else
    ⟨d.year - 1, 12, 31, by decide, ⟨by omega, Nat.le_refl _⟩⟩

/-- The number of days from the first of March of the year 0, as if all years began in March. -/
def number (d : Date) : Int :=
  let early : Bool := d.month ≤ 2
  let year := if early then d.year - 1 else d.year
  let month := if early then d.month + 9 else d.month - 3
  year * 365 + year / 4 - year / 100 + year / 400 + (153 * month + 2 : Nat) / 5 + d.day - 1

end Date

end Cadence
