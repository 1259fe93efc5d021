import DataBlock.Time.Clock
import DataBlock.Time.Duration
/-!
# Counting milliseconds

A count of milliseconds is the duration with that many, and a time of day if it
is less than a day.
-/

namespace DataBlock.Time

namespace Duration

theorem eq_of_nanos_eq {a b : Duration} (h : a.nanos = b.nanos) : a = b := by
  rcases a with ⟨nanos, hlt⟩
  simp only at h
  subst h
  rfl

theorem ofMillis_eq {d : Duration} {millis : UInt64} (h : d.nanos = millis.toNat * 1_000_000) :
    ofMillis millis = d :=
  eq_of_nanos_eq h.symm

theorem nanos_ofMillis_ofNat {count : Nat} (h : count < UInt64.size) :
    (ofMillis (UInt64.ofNat count)).nanos = count * 1_000_000 := by
  simp only [ofMillis, UInt64.toNat_ofNat_of_lt' h]

end Duration

namespace Clock

theorem ofSeconds?_eq_some_iff {seconds nanos : Nat} {clock : Clock} :
    ofSeconds? seconds nanos = some clock ↔ clock.seconds = seconds ∧ clock.nanos = nanos := by
  unfold ofSeconds?
  constructor
  · intro h
    split at h
    · rw [← Option.some.inj h]
      exact ⟨rfl, rfl⟩
    · simp at h
  · rintro ⟨rfl, rfl⟩
    exact dif_pos ⟨clock.seconds_lt, clock.nanos_lt, clock.leap⟩

/-- The clock of a count shows it in whole milliseconds, and no leap second. -/
theorem ofMillis?_eq_some_iff {millis : Nat} {clock : Clock} :
    ofMillis? millis = some clock ↔
      clock.seconds * 1_000_000_000 + clock.nanos = millis * 1_000_000 ∧
        clock.nanos < 1_000_000_000 := by
  rw [ofMillis?, ofSeconds?_eq_some_iff]
  omega

theorem ofMillis?_eq_none_iff {millis : Nat} :
    ofMillis? millis = none ↔ 86_400_000 ≤ millis := by
  rw [ofMillis?, ofSeconds?, dite_eq_right_iff]
  constructor
  · intro h
    apply Nat.le_of_not_lt
    intro hlt
    exact absurd (h (by omega)) (by simp)
  · intro h hall
    omega

end Clock

end DataBlock.Time
