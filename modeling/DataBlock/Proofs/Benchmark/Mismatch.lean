import DataBlock.Proofs.Benchmark.Verdict
import DataBlock.Proofs.Value.Integers
/-!
# What a mismatch shows

A mismatch is reported by the texts of what was expected and what was decoded.
Where both are of one kind the texts differ, as each kind but one is printed in
full.  A duration is printed in whole milliseconds, and what is decoded has no
others, so the two texts are the same if less than one is expected beyond it.
-/

namespace DataBlock

namespace Expectation

inductive SameKind : Expectation → Value → Prop
  | bool (a b : Bool) : SameKind (.bool a) (.bool b)
  | int (a : Int64) {v : Value} {n : Int} (h : v.Holds n) : SameKind (.int a) v
  | text (a : String) {v : Value} {b : String} (h : v.asText? = some b) : SameKind (.text a) v
  | time (a b : Time.Duration) : SameKind (.time a) (.time b)
  | date (a b : Time.Date) : SameKind (.date a) (.date b)
  | timeOfDay (a b : Time.Clock) : SameKind (.timeOfDay a) (.timeOfDay b)

variable {e : Expectation} {v : Value}

theorem eq_of_toString_eq {a b : Bool} (h : toString a = toString b) : a = b := by
  revert a b
  decide

/-- What is not accepted of its kind, and is no duration, has another text. -/
theorem SameKind.render_ne (hkind : e.SameKind v) (htime : v.type ≠ .time)
    (h : e.accepts v = false) : e.render ≠ v.render := by
  intro heq
  apply Bool.eq_false_iff.1 h
  cases hkind with
  | bool a b =>
      rw [accepts_bool_iff, eq_of_toString_eq heq]
  | int a hn =>
      rw [← Value.written_of_type_ne htime,
        Value.written_of_toInt? (Value.toInt?_eq_some_iff.2 hn)] at heq
      -- both numbers are read back from the one text
      have hread := congrArg (fun s => Text.signed? s.toList) heq
      change Text.signed? a.toInt.repr.toList = _ at hread
      rw [Text.signed?_repr, Text.signed?_repr] at hread
      exact hn.accepts_int_iff.2 (Option.some.inj hread)
  | text a hb =>
      rw [← Value.written_of_type_ne htime, Value.written_of_asText? hb] at heq
      rw [accepts, hb, beq_iff_eq]
      exact congrArg some heq.symm
  | time => exact absurd rfl htime
  | date a b =>
      rw [accepts_date_iff, Time.Date.render_injective (String.ofList_inj.1 heq)]
  | timeOfDay a b =>
      rw [accepts_timeOfDay_iff, Time.Clock.render_injective (String.ofList_inj.1 heq)]

/-- A duration of whole milliseconds that is not the expected one has the same text
exactly if less than a millisecond is missing. -/
theorem render_time_eq_iff {a b : Time.Duration} (hfits : (Value.time b).Fits)
    (h : (time a).accepts (.time b) = false) :
    (time a).render = (Value.time b).render ↔ b.nanos < a.nanos ∧ a.nanos < b.nanos + 1_000_000 := by
  obtain ⟨millis, rfl⟩ := hfits
  have hne : a ≠ .ofMillis millis.toUInt64 := by
    rintro rfl
    rw [accepts_time_iff.2 rfl] at h
    cases h
  have hdecoded : (Time.Duration.ofMillis millis.toUInt64).nanos = millis.toNat * 1_000_000 := by
    simp only [Time.Duration.ofMillis, UInt32.toNat_toUInt64]
  have hnanos : a.nanos ≠ millis.toNat * 1_000_000 := by
    rw [← hdecoded]
    exact fun heq => hne (Time.Duration.eq_of_nanos_eq heq)
  have htext : (time a).render = (Value.time (.ofMillis millis.toUInt64)).render ↔
      a.millis = millis.toNat := by
    rw [render, Value.render, String.ofList_inj, Time.Duration.render_eq_iff,
      Time.Duration.millis_ofMillis, UInt32.toNat_toUInt64]
  rw [htext, hdecoded, Time.Duration.millis]
  omega

end Expectation

namespace Benchmark

open Expectation (SameKind)

/-- A run over data blocks in memory that reports a mismatch has decoded the first
tag that does not hold.  If what was expected of it is of the kind of its value, the
two texts differ, but for durations.  The texts of two durations are the same exactly
if the expected one is longer by less than a millisecond. -/
theorem run_mismatch_texts (name : String) (scenario : Scenario) (now : Memory → Time.Duration)
    (mode : ReadMode) (m : Memory) {tag address expected actual : String}
    (h : ((overMemory name scenario now mode).run m).1 =
      .error (.mismatch tag address expected actual)) :
    ∃ passed entry later bytes value, scenario.entries = passed ++ entry :: later ∧
      (∀ earlier ∈ passed, earlier.HoldsIn m) ∧
      m.Holds entry.tag.block entry.tag.span bytes ∧ entry.tag.decode bytes = .ok value ∧
      (tag = entry.name ∧ address = entry.address ∧ expected = entry.expected.render ∧
        actual = value.render) ∧
      (SameKind entry.expected value → value.type ≠ .time → expected ≠ actual) ∧
      ∀ a b, entry.expected = .time a → value = .time b →
        (expected = actual ↔ b.nanos < a.nanos ∧ a.nanos < b.nanos + 1_000_000) := by
  have hverdict := (run_overMemory name scenario now mode m).1
  rw [h] at hverdict
  obtain ⟨passed, entry, later, hentries, hpassed, hfails⟩ :=
    exists_failsIn_of_firstFault (firstFault_of_verdict hverdict.symm)
  cases hfails with
  | mismatch bytes value hbytes hdecode haccepts =>
      refine ⟨passed, entry, later, bytes, value, hentries, hpassed, hbytes, hdecode,
        ⟨rfl, rfl, rfl, rfl⟩, fun hkind htime => hkind.render_ne htime haccepts, ?_⟩
      rintro a b ha rfl
      rw [ha] at haccepts ⊢
      exact Expectation.render_time_eq_iff (Value.fits_of_decode hdecode).2 haccepts

def clock : Tag := ⟨⟨1, 0, 0, .timeOfDay, none⟩, rfl⟩

def leapSecond : Scenario :=
  { Scenario.new 1 .zero with entries :=
    [⟨"tag-1", "%DB1:0:TIME_OF_DAY", clock,
      .timeOfDay ⟨86399, 1_000_000_000, by decide, by decide, by decide⟩⟩] }

/-- The second before it is decoded, and has another text. -/
theorem run_leapSecond :
    ((overMemory "clock" leapSecond (fun _ => .zero) .single).run
      (Memory.empty.write 1 0 [0x05, 0x26, 0x58, 0x18])).1 =
        .error (.mismatch "tag-1" "%DB1:0:TIME_OF_DAY" "23:59:60" "23:59:59") ∧
    ∃ entry ∈ leapSecond.entries, ∃ bytes value, entry.tag.decode bytes = .ok value ∧
      "23:59:60" = entry.expected.render ∧ "23:59:59" = value.render := by
  have hrun : ((overMemory "clock" leapSecond (fun _ => .zero) .single).run
      (Memory.empty.write 1 0 [0x05, 0x26, 0x58, 0x18])).1 =
        .error (.mismatch "tag-1" "%DB1:0:TIME_OF_DAY" "23:59:60" "23:59:59") := by
    rfl
  obtain ⟨passed, entry, later, bytes, value, hentries, -, -, hdecode, ⟨-, -, htexts⟩, -⟩ :=
    run_mismatch_texts _ _ _ _ _ hrun
  exact ⟨hrun, entry, by simp [hentries], bytes, value, hdecode, htexts⟩

def timer : Tag := ⟨⟨9, 0, 0, .time, none⟩, rfl⟩

def halfMillisecond : Scenario :=
  { Scenario.new 1 .zero with entries :=
    [⟨"tag-1", "%DB9:0:TIME", timer, .time ⟨500_000, by decide⟩⟩] }

/-- Nothing is what is decoded, and what seems to be expected. -/
theorem run_halfMillisecond :
    (Scenario.new 1 .zero).withTag "%DB9:0:TIME" "time;PT0.0005S" = .ok halfMillisecond ∧
    timer.decode [0, 0, 0, 0] = .ok (.time .zero) ∧
    SameKind (.time ⟨500_000, by decide⟩) (.time .zero) ∧
    ((overMemory "timer" halfMillisecond (fun _ => .zero) .single).run
      (Memory.empty.write 9 0 [0, 0, 0, 0])).1 =
        .error (.mismatch "tag-1" "%DB9:0:TIME" "0ms" "0ms") := by
  refine ⟨?_, ?_, .time _ _, ?_⟩
  · decide +kernel
  · rfl
  · rfl

end Benchmark

end DataBlock
