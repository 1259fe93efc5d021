import DataBlock.Benchmark
import DataBlock.Proofs.Time.Periods
import Mathlib.Algebra.Group.Action.Defs
import Mathlib.Algebra.Order.BigOperators.Group.List
import Mathlib.Algebra.Order.Group.Nat
/-!
# Average times

The average of the cycle times is their sum divided by their number.  It is a true
average as long as 32 bits can hold the number; from there on the sum is divided by
what is left of the number in 32 bits, and if nothing is left there is no average.
-/

namespace DataBlock

namespace Time.Duration

theorem divide?_eq_some_iff {sum d : Duration} {parts : Nat} :
    sum.divide? parts = some d ↔ parts ≠ 0 ∧ d.nanos = sum.nanos / parts := by
  unfold divide?
  split
  · next h => simp [h]
  · next h =>
    rw [Option.some.injEq]
    constructor
    · rintro rfl
      exact ⟨h, rfl⟩
    · rintro ⟨-, hd⟩
      exact eq_of_nanos_eq hd.symm

end Time.Duration

namespace Benchmark.Results

open Time (Duration)

def total (r : Results) : Nat :=
  (r.readTimes.map Duration.nanos).sum

variable {r : Results}

theorem sum?_eq_some_iff {d : Duration} :
    Duration.sum? r.readTimes = some d ↔ d.nanos = r.total :=
  Duration.ofNanos?_eq_some_iff

theorem sum?_eq_none_iff : Duration.sum? r.readTimes = none ↔ Duration.limit ≤ r.total :=
  Duration.ofNanos?_eq_none_iff

/-- There is an average of no times at all, and of times whose sum is in range and
whose number is not a multiple of `2 ^ 32`. -/
theorem average?_eq_some_iff {d : Duration} :
    r.average? = some d ↔
      d.nanos = r.total / (r.readTimes.length % UInt32.size) ∧
        (r.readTimes = [] ∨
          r.total < Duration.limit ∧ r.readTimes.length % UInt32.size ≠ 0) := by
  unfold average?
  split
  · next hempty =>
    have htotal : r.total = 0 := by simp [total, hempty]
    rw [Option.some.injEq, htotal, Nat.zero_div]
    constructor
    · rintro rfl
      exact ⟨rfl, .inl hempty⟩
    · rintro ⟨hd, -⟩
      exact Duration.eq_of_nanos_eq hd.symm
  · next hne =>
    simp only [Option.bind_eq_bind, Option.bind_eq_some_iff, sum?_eq_some_iff,
      Duration.divide?_eq_some_iff]
    constructor
    · rintro ⟨sum, hsum, hcount, hd⟩
      rw [hsum] at hd
      refine ⟨hd, .inr ⟨?_, hcount⟩⟩
      rw [← hsum]
      exact sum.nanos_lt
    · rintro ⟨hd, hempty | ⟨htotal, hcount⟩⟩
      · contradiction
      · exact ⟨⟨r.total, htotal⟩, rfl, hcount, hd⟩

theorem average?_eq_none_iff :
    r.average? = none ↔ r.readTimes ≠ [] ∧
      (Duration.limit ≤ r.total ∨ r.readTimes.length % UInt32.size = 0) := by
  unfold average?
  split
  · next hempty => simp [hempty]
  · next hne =>
    rcases hsum : Duration.sum? r.readTimes with _ | sum
    · simp [hne, sum?_eq_none_iff.1 hsum]
    · have htotal : ¬ Duration.limit ≤ r.total := by
        rw [← sum?_eq_none_iff, hsum]
        nofun
      simp [hne, htotal, Duration.divide?]

theorem length_mul_le_total {low : Nat} (h : ∀ time ∈ r.readTimes, low ≤ time.nanos) :
    r.readTimes.length * low ≤ r.total := by
  have hsum := List.card_nsmul_le_sum (r.readTimes.map Duration.nanos) low
    (List.forall_mem_map.2 h)
  rwa [List.length_map, smul_eq_mul] at hsum

theorem total_le_length_mul {high : Nat} (h : ∀ time ∈ r.readTimes, time.nanos ≤ high) :
    r.total ≤ r.readTimes.length * high := by
  have hsum := List.sum_le_card_nsmul (r.readTimes.map Duration.nanos) high
    (List.forall_mem_map.2 h)
  rwa [List.length_map, smul_eq_mul] at hsum

/-- The average of some times lies between any bounds of all of them. -/
theorem total_div_mem {low high : Nat} (hne : r.readTimes ≠ [])
    (h : ∀ time ∈ r.readTimes, low ≤ time.nanos ∧ time.nanos ≤ high) :
    low ≤ r.total / r.readTimes.length ∧ r.total / r.readTimes.length ≤ high := by
  have hpos : 0 < r.readTimes.length := List.length_pos_of_ne_nil hne
  have hlow := length_mul_le_total fun time htime => (h time htime).1
  have hhigh := total_le_length_mul fun time htime => (h time htime).2
  constructor
  · rw [Nat.le_div_iff_mul_le hpos, Nat.mul_comm]
    exact hlow
  · calc
      r.total / r.readTimes.length ≤ r.readTimes.length * high / r.readTimes.length :=
        Nat.div_le_div_right hhigh
      _ = high := Nat.mul_div_cancel_left high hpos

/-! ## What the average is -/

/-- The average is the sum of the times divided by what is left of their number in
32 bits, and zero if there are none; there is none if the sum is out of range or
nothing is left of the number.  As long as 32 bits can hold the number, it is the
sum divided by the number and lies between the shortest and the longest time. -/
theorem average?_of_times (r : Results) :
    (r.average? = none ↔ r.readTimes ≠ [] ∧
      (Duration.limit ≤ r.total ∨ r.readTimes.length % UInt32.size = 0)) ∧
    (∀ d, r.average? = some d → d.nanos = r.total / (r.readTimes.length % UInt32.size)) ∧
    (r.total < Duration.limit → r.readTimes.length < UInt32.size →
      ∃ d, r.average? = some d ∧ d.nanos = r.total / r.readTimes.length ∧
        ∀ low high, r.readTimes ≠ [] →
          (∀ time ∈ r.readTimes, low ≤ time.nanos ∧ time.nanos ≤ high) →
          low ≤ d.nanos ∧ d.nanos ≤ high) := by
  refine ⟨average?_eq_none_iff, fun d hd => (average?_eq_some_iff.1 hd).1, ?_⟩
  intro htotal hcount
  have hmod : r.readTimes.length % UInt32.size = r.readTimes.length := Nat.mod_eq_of_lt hcount
  rcases haverage : r.average? with _ | d
  · obtain ⟨hne, hlimit | hzero⟩ := average?_eq_none_iff.1 haverage
    · omega
    · rw [hmod, List.length_eq_zero_iff] at hzero
      contradiction
  · have hd := (average?_eq_some_iff.1 haverage).1
    rw [hmod] at hd
    refine ⟨d, rfl, hd, ?_⟩
    intro low high hne hbounds
    rw [hd]
    exact total_div_mem hne hbounds

def uneven : Results :=
  ⟨.zero, .zero, 3, [⟨1_000_000_000, by decide⟩, ⟨1_000_000_000, by decide⟩, .zero]⟩

theorem average?_uneven :
    ∃ d, uneven.average? = some d ∧ d.nanos = 666_666_666 ∧
      0 ≤ d.nanos ∧ d.nanos ≤ 1_000_000_000 := by
  obtain ⟨d, hd, hnanos, hbetween⟩ := (average?_of_times uneven).2.2 (by decide) (by decide)
  have hbounds : ∀ time ∈ uneven.readTimes, 0 ≤ time.nanos ∧ time.nanos ≤ 1_000_000_000 := by
    decide
  exact ⟨d, hd, hnanos, hbetween 0 1_000_000_000 (by decide) hbounds⟩

def ofSeconds (cycles : Nat) : Results :=
  ⟨.zero, .zero, cycles, List.replicate cycles ⟨1_000_000_000, by decide⟩⟩

theorem total_ofSeconds (cycles : Nat) : (ofSeconds cycles).total = cycles * 1_000_000_000 := by
  simp [total, ofSeconds]

theorem length_ofSeconds (cycles : Nat) : (ofSeconds cycles).readTimes.length = cycles :=
  List.length_replicate

/-- Cycles of a second each, more than 32 bits can count: `2 ^ 32` of them have no
average, and that of one more is longer than any of them. -/
theorem longer_than_any :
    ((ofSeconds UInt32.size).total < Duration.limit ∧
      (ofSeconds UInt32.size).average? = none) ∧
    (ofSeconds (UInt32.size + 1)).total < Duration.limit ∧
    ∃ d, (ofSeconds (UInt32.size + 1)).average? = some d ∧
      ∀ time ∈ (ofSeconds (UInt32.size + 1)).readTimes, time.nanos < d.nanos := by
  have hnone : (ofSeconds UInt32.size).average? = none := by
    rw [average?_eq_none_iff, ← List.length_pos_iff, length_ofSeconds]
    exact ⟨by decide, .inr (Nat.mod_self _)⟩
  have htotal : (ofSeconds (UInt32.size + 1)).total < Duration.limit := by
    rw [total_ofSeconds]
    decide
  refine ⟨⟨?_, hnone⟩, htotal, ⟨(UInt32.size + 1) * 1_000_000_000, by decide⟩, ?_, ?_⟩
  · rw [total_ofSeconds]
    decide
  · have hcount : (UInt32.size + 1) % UInt32.size = 1 := by decide
    rw [average?_eq_some_iff, length_ofSeconds, hcount, total_ofSeconds, Nat.div_one]
    exact ⟨rfl, .inr ⟨by decide, by decide⟩⟩
  · intro time htime
    rw [List.eq_of_mem_replicate htime]
    decide

end Benchmark.Results

end DataBlock
