import DataBlock.Binary.Number
/-!
# Durations

A duration is a whole number of nanoseconds; its whole seconds fit in 64 bits.
Sums that leave this range are refused, never reduced.
-/

namespace DataBlock.Time

structure Duration where
  nanos : Nat
  nanos_lt : nanos < UInt64.size * 1_000_000_000
  deriving DecidableEq, Repr

namespace Duration

/-- Nanoseconds of the first duration that is out of range. -/
def limit : Nat := UInt64.size * 1_000_000_000

def ofNanos? (nanos : Nat) : Option Duration :=
  if h : nanos < limit then some ⟨nanos, h⟩ else none

def zero : Duration := ⟨0, by decide⟩

def ofMillis (millis : UInt64) : Duration :=
  ⟨millis.toNat * 1_000_000, by have := millis.toNat_lt_size; omega⟩

/-- The duration of a number of seconds, to the nearest nanosecond; a half goes
to the even neighbour.  Only finite numbers from zero on have one. -/
def ofSeconds? (seconds : Binary.Double) : Option Duration :=
  match seconds.datum with
  | .finite negative units =>
    if negative ∧ units ≠ 0 then none
    else ofNanos? (Binary.roundHalfEven (units * 1_000_000_000) Binary.Format.double.unitsPerOne)
  | _ => none

def add? (a b : Duration) : Option Duration :=
  ofNanos? (a.nanos + b.nanos)

def sum? (ds : List Duration) : Option Duration :=
  ofNanos? (ds.map nanos).sum

/-- The time from `start` to `stop`, and zero if `stop` comes first. -/
def between (start stop : Duration) : Duration :=
  ⟨stop.nanos - start.nanos, by have := stop.nanos_lt; omega⟩

/-- The share of one of `parts` equal parts, in whole nanoseconds. -/
def divide? (d : Duration) (parts : Nat) : Option Duration :=
  if parts = 0 then none
  else some ⟨d.nanos / parts, Nat.lt_of_le_of_lt (Nat.div_le_self _ _) d.nanos_lt⟩

def millis (d : Duration) : Nat := d.nanos / 1_000_000

def seconds (d : Duration) : Nat := d.nanos / 1_000_000_000

def subsecNanos (d : Duration) : Nat := d.nanos % 1_000_000_000

def render (d : Duration) : List Char := Nat.toDigits 10 d.millis ++ ['m', 's']

theorem millis_ofMillis (n : UInt64) : (ofMillis n).millis = n.toNat := by
  simp [ofMillis, millis]

theorem ofNanos?_eq_some_iff {n : Nat} {d : Duration} :
    ofNanos? n = some d ↔ d.nanos = n := by
  unfold ofNanos?
  split
  · next h =>
    refine ⟨?_, fun heq => ?_⟩
    · rintro ⟨⟩
      rfl
    · subst heq
      rfl
  · next h =>
    constructor
    · simp
    · rintro rfl
      exact absurd d.nanos_lt h

end Duration

end DataBlock.Time
