import DataBlock.Text.Numeral
/-!
# Calendar dates

Dates of the proleptic Gregorian calendar.  The controller counts days from
`Date.epoch`; `Date.ofEpochDay?` finds the date of such a count by taking whole
years and then whole months off it.
-/

namespace DataBlock.Time

def isLeap (year : Int) : Bool :=
  year % 4 = 0 && (year % 100 ≠ 0 || year % 400 = 0)

def monthLengths (year : Int) : List Nat :=
  [31, if isLeap year then 29 else 28, 31, 30, 31, 30, 31, 31, 30, 31, 30, 31]

def yearLength (year : Int) : Nat :=
  if isLeap year then 366 else 365

/-- Length of a month counted from one; zero for no month. -/
def monthLength (year : Int) (month : Nat) : Nat :=
  if month = 0 then 0 else ((monthLengths year)[month - 1]?).getD 0

/-- A day of the calendar, in the range of years the calendar is kept for. -/
structure Date where
  year : Int
  month : Nat
  day : Nat
  year_mem : -262143 ≤ year ∧ year ≤ 262142
  day_mem : 1 ≤ day ∧ day ≤ monthLength year month
  deriving DecidableEq, Repr

namespace Date

def ofYmd? (year : Int) (month day : Nat) : Option Date :=
  if hyear : -262143 ≤ year ∧ year ≤ 262142 then
    if hday : 1 ≤ day ∧ day ≤ monthLength year month then
      some ⟨year, month, day, hyear, hday⟩
    else none
  else none

/-- The first of January 1990, day zero of the controller's count. -/
def epoch : Date := ⟨1990, 1, 1, by decide, by decide⟩

theorem yearLength_pos (year : Int) : 0 < yearLength year := by
  unfold yearLength
  split <;> decide

/-- The year that holds the day `n` days after the start of `year`, and the
days from its start. -/
def yearOfDay (year : Int) (n : Nat) : Int × Nat :=
  if n < yearLength year then (year, n)
  else yearOfDay (year + 1) (n - yearLength year)
termination_by n
decreasing_by
  have := yearLength_pos year
  omega

/-- The month that holds day `n` of a year with the given month lengths, and
the days from its start; months are counted from `month` on. -/
def monthOfDay (month n : Nat) : List Nat → Nat × Nat
  | [] => (month, n)
  | length :: lengths =>
    if n < length then (month, n) else monthOfDay (month + 1) (n - length) lengths

def ofEpochDay? (n : Nat) : Option Date :=
  let (year, dayOfYear) := yearOfDay 1990 n
  let (month, dayOfMonth) := monthOfDay 1 dayOfYear (monthLengths year)
  ofYmd? year month (dayOfMonth + 1)

/-- Four digits or more; a year that is negative or has more digits has a sign. -/
def renderYear (year : Int) : List Char :=
  let digits := Text.padded 4 year.natAbs
  if year < 0 then '-' :: digits
  else if 9999 < year then '+' :: digits
  else digits

def render (d : Date) : List Char :=
  renderYear d.year ++ '-' :: Text.padded 2 d.month ++ '-' :: Text.padded 2 d.day

end Date

end DataBlock.Time
