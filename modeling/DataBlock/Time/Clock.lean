import DataBlock.Text.Numeral
/-!
# Times of day

A time of day counts whole seconds from midnight and nanoseconds beyond them.
In the last second of a minute the nanoseconds may run through another second,
a leap second.
-/

namespace DataBlock.Time

structure Clock where
  seconds : Nat
  nanos : Nat
  seconds_lt : seconds < 86400
  nanos_lt : nanos < 2 * 1_000_000_000
  leap : 1_000_000_000 ≤ nanos → seconds % 60 = 59
  deriving DecidableEq, Repr

namespace Clock

def ofSeconds? (seconds nanos : Nat) : Option Clock :=
  if h : seconds < 86400 ∧ nanos < 2 * 1_000_000_000 ∧ (1_000_000_000 ≤ nanos → seconds % 60 = 59) then
    some ⟨seconds, nanos, h.1, h.2.1, h.2.2⟩
  else none

def ofMillis? (millis : Nat) : Option Clock :=
  ofSeconds? (millis / 1000) (millis % 1000 * 1_000_000)

/-- A point and three, six or nine digits, whichever are enough; nothing for
whole seconds. -/
def renderFraction (nanos : Nat) : List Char :=
  if nanos = 0 then []
  else if nanos % 1_000_000 = 0 then '.' :: Text.padded 3 (nanos / 1_000_000)
  else if nanos % 1000 = 0 then '.' :: Text.padded 6 (nanos / 1000)
  else '.' :: Text.padded 9 nanos

/-- Hours, minutes, seconds and fraction; a leap second is the sixtieth. -/
def render (t : Clock) : List Char :=
  let second := t.seconds % 60 + t.nanos / 1_000_000_000
  Text.padded 2 (t.seconds / 3600) ++ ':' :: Text.padded 2 (t.seconds / 60 % 60) ++
    ':' :: Text.padded 2 second ++ renderFraction (t.nanos % 1_000_000_000)

end Clock

end DataBlock.Time
