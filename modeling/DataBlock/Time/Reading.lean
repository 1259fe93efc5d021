import DataBlock.Power
import DataBlock.Text.Blank
import DataBlock.Text.Split
import DataBlock.Time.Clock
import DataBlock.Time.Date
/-!
# Reading dates and times of day

A field is read from the front of a text: blanks, then digits, at most as many
as the field is wide.  Fields are separated by the exact mark of the format,
and nothing may follow the last one.
-/

namespace DataBlock.Time

/-- The number at the front of a text, of at most `width` digits, and the rest. -/
def digits? (width : Nat) (s : List Char) : Option (Nat × List Char) :=
  let digits := (s.take width).takeWhile Char.isDigit
  (Text.numeral? digits).map fun n => (n, s.drop digits.length)

def field? (width : Nat) (s : List Char) : Option (Nat × List Char) :=
  digits? width (Text.trimStart s)

def mark? (c : Char) (s : List Char) : Option (List Char) :=
  Text.dropStart? [c] s

/-- A year after blanks: up to four digits, or a sign and any number of digits. -/
def yearField? (s : List Char) : Option (Int × List Char) :=
  match Text.trimStart s with
  | '-' :: s => (digits? s.length s).map fun field => (-(field.1 : Int), field.2)
  | '+' :: s => (digits? s.length s).map fun field => ((field.1 : Int), field.2)
  | s => (digits? 4 s).map fun field => ((field.1 : Int), field.2)

def Date.ofText? (s : List Char) : Option Date := do
  let (year, s) ← yearField? s
  let (month, s) ← field? 2 (← mark? '-' s)
  let (day, s) ← field? 2 (← mark? '-' s)
  if s = [] then Date.ofYmd? year month day else none

/-- The fraction of a second, if a point follows: nine digits count, and more
are skipped. -/
def fractionField? (s : List Char) : Option (Nat × List Char) :=
  match s with
  | '.' :: s => do
    let digits := s.takeWhile Char.isDigit
    let used := digits.take 9
    let n ← Text.numeral? used
    return (n * 10 ^ (9 - used.length), s.drop digits.length)
  | s => some (0, s)

/-- Hours and minutes at the front of a text, in seconds. -/
def minuteField? (s : List Char) : Option (Nat × List Char) := do
  let (hour, s) ← field? 2 s
  let (minute, s) ← field? 2 (← mark? ':' s)
  if hour < 24 ∧ minute < 60 then some (hour * 3600 + minute * 60, s) else none

/-- The time of a text of the form `hour:minute:second` with a fraction if it
has one.  The sixtieth second of a minute is a leap second. -/
def Clock.ofFullText? (s : List Char) : Option Clock := do
  let (start, s) ← minuteField? s
  let (second, s) ← field? 2 (← mark? ':' s)
  let (nanos, s) ← fractionField? s
  if s ≠ [] then none
  else if second = 60 then Clock.ofSeconds? (start + 59) (1_000_000_000 + nanos)
  else if second < 60 then Clock.ofSeconds? (start + second) nanos
  else none

def Clock.ofText? (s : List Char) : Option Clock :=
  (Clock.ofFullText? s).or do
    let (start, s) ← minuteField? s
    if s = [] then Clock.ofSeconds? start 0 else none

end DataBlock.Time
