import DataBlock.Proofs.Benchmark.Course
import DataBlock.Proofs.Reading.Agreement
import DataBlock.Proofs.Reading.Routing
/-!
# The verdict over data blocks in memory

Over data blocks in memory a benchmark's verdict is settled by the data blocks
and the scenario.  Whether the tags are read one by one or by plan, the first
entry of the scenario that is missing, not decoded or not as expected is
reported, and only the number of round trips tells the two apart.
-/

namespace DataBlock

/-- The data block exists, and the span lies in its image and has the bytes. -/
def Memory.Holds (m : Memory) (block : UInt16) (span : Span) (bytes : Bytes) : Prop :=
  ∃ image, m.blocks block = some image ∧ span.stop ≤ image.length ∧
    (image.drop span.offset.toNat).take span.length.toNat = bytes

theorem Memory.fetch_eq_ok_iff {m : Memory} {block : UInt16} {span : Span} {bytes : Bytes} :
    m.fetch block span = .ok bytes ↔ m.Holds block span bytes := by
  unfold fetch Holds
  cases m.blocks block with
  | none => simp
  | some image =>
      by_cases hstop : span.stop ≤ image.length
      · simp [hstop]
      · simp [hstop]

namespace Scenario.Entry

/-- The tag's bytes are in the data blocks and stand for a value as expected. -/
def HoldsIn (entry : Entry) (m : Memory) : Prop :=
  ∃ bytes value, m.Holds entry.tag.block entry.tag.span bytes ∧
    entry.tag.decode bytes = .ok value ∧ entry.expected.accepts value = true

inductive FailsIn (entry : Entry) (m : Memory) : Error → Prop where
  | missing (hblock : m.blocks entry.tag.block = none) :
      FailsIn entry m (.tag entry.name entry.address
        (.transport (.blockMissing entry.tag.block)))
  | outOfRange (image : Bytes) (hblock : m.blocks entry.tag.block = some image)
      (hstop : image.length < entry.tag.span.stop) :
      FailsIn entry m (.tag entry.name entry.address
        (.transport (.outOfRange entry.tag.block entry.tag.span image.length)))
  | undecoded (bytes : Bytes) (e : CodecError)
      (hbytes : m.Holds entry.tag.block entry.tag.span bytes)
      (hdecode : entry.tag.decode bytes = .error e) :
      FailsIn entry m (.tag entry.name entry.address (.codec e))
  | mismatch (bytes : Bytes) (value : Value)
      (hbytes : m.Holds entry.tag.block entry.tag.span bytes)
      (hdecode : entry.tag.decode bytes = .ok value)
      (haccepts : entry.expected.accepts value = false) :
      FailsIn entry m (.mismatch entry.name entry.address entry.expected.render value.render)

variable {entry : Entry} {m : Memory}

def resultIn (entry : Entry) (m : Memory) : Except Error Value :=
  entry.tag.decodeReply (m.fetch entry.tag.block entry.tag.span)

theorem passes_resultIn_iff : entry.Passes (entry.resultIn m) ↔ entry.HoldsIn m := by
  constructor
  · rintro ⟨value, hvalue, haccepts⟩
    have hreads := entry.tag.reads_decodeReply (m.fetch entry.tag.block entry.tag.span)
    change entry.tag.Reads _ (entry.resultIn m) at hreads
    rw [hvalue] at hreads
    generalize hreply : m.fetch entry.tag.block entry.tag.span = reply at hreads
    cases hreads with
    | value hdecode =>
      exact ⟨_, value, Memory.fetch_eq_ok_iff.1 hreply, hdecode, haccepts⟩
  · rintro ⟨bytes, value, hbytes, hdecode, haccepts⟩
    refine ⟨value, ?_, haccepts⟩
    rw [resultIn, Memory.fetch_eq_ok_iff.2 hbytes]
    change (entry.tag.decode bytes).mapError Error.codec = _
    rw [hdecode]
    rfl

/-- Bytes that are not fetched are of a data block that is missing or too short. -/
theorem failsIn_of_fetch_eq_error {e : Error}
    (h : m.fetch entry.tag.block entry.tag.span = .error e) :
    entry.FailsIn m (.tag entry.name entry.address e) := by
  unfold Memory.fetch at h
  cases hblock : m.blocks entry.tag.block with
  | none =>
      simp only [hblock] at h
      cases h
      exact .missing hblock
  | some image =>
      by_cases hstop : entry.tag.span.stop ≤ image.length
      · simp [hblock, hstop] at h
      · simp only [hblock, if_neg hstop] at h
        cases h
        exact .outOfRange image hblock (Nat.lt_of_not_le hstop)

theorem failsIn_of_fault {e : Error} (h : entry.Fault (entry.resultIn m) e) :
    entry.FailsIn m e := by
  have hreads := entry.tag.reads_decodeReply (m.fetch entry.tag.block entry.tag.span)
  change entry.tag.Reads _ (entry.resultIn m) at hreads
  generalize hreply : m.fetch entry.tag.block entry.tag.span = reply at hreads
  generalize entry.resultIn m = result at h hreads
  cases h with
  | unread cause =>
      cases hreads with
      | unread => exact failsIn_of_fetch_eq_error hreply
      | undecoded hdecode => exact .undecoded _ _ (Memory.fetch_eq_ok_iff.1 hreply) hdecode
  | mismatch value haccepts =>
      cases hreads with
      | value hdecode => exact .mismatch _ _ (Memory.fetch_eq_ok_iff.1 hreply) hdecode haccepts

end Scenario.Entry

/-! ## Cycles that read the same -/

namespace Benchmark

open Scenario

variable {σ : Type}

/-- What cycles come to that all read the same values. -/
def verdict (cycles : Nat) (values : Values) : Except Error Unit :=
  if cycles = 0 then .ok ()
  else
    match firstFault? values with
    | some e => .error e
    | none => .ok ()

/-- How many of the cycles are run: none follows one with a fault. -/
def cyclesRun {α : Type} (cycles : Nat) : Except Error α → Nat
  | .ok _ => cycles
  | .error _ => 1

theorem cyclesRun_map {α β : Type} (cycles : Nat) (outcome : Except Error α) (f : α → β) :
    cyclesRun cycles (outcome.map f) = cyclesRun cycles outcome := by
  cases outcome <;> rfl

theorem firstFault?_eq_none_iff {values : Values} : firstFault? values = none ↔ values.Pass := by
  refine ⟨pass_of_firstFault?, ?_⟩
  intro h
  apply List.findSome?_eq_none_iff.2
  intro (entry, result) hmem
  exact (fault?_eq_none_iff entry result).2 (h entry result hmem)

theorem verdict_eq_ok_iff {cycles : Nat} {values : Values} :
    verdict cycles values = .ok () ↔ cycles = 0 ∨ values.Pass := by
  rw [verdict, ← firstFault?_eq_none_iff]
  by_cases hzero : cycles = 0
  · simp [hzero]
  · cases firstFault? values <;> simp [hzero]

theorem firstFault_of_verdict {cycles : Nat} {values : Values} {e : Error}
    (h : verdict cycles values = .error e) : values.FirstFault e := by
  unfold verdict at h
  split at h
  · cases h
  · cases hfirst : firstFault? values with
    | none =>
        rw [hfirst] at h
        cases h
    | some e' =>
        rw [hfirst] at h
        cases h
        exact firstFault_of_firstFault? hfirst

/-- Of cycles that all read the same, the first one decides. -/
theorem runCycles_of_yields (b : Benchmark σ) {P : σ → Prop} {values : Values}
    (h : Yields P b.readAll values) (n : Nat) {s : σ} (hs : P s) :
    (b.runCycles n s).1.map (fun _ => ()) = verdict n values ∧
    (b.runCycles n s).2 = b.after (cyclesRun n (verdict n values)) s := by
  induction n generalizing s with
  | zero => exact ⟨rfl, rfl⟩
  | succ n ih =>
      obtain ⟨hread, hnext⟩ := h s hs
      rw [runCycles_succ, hread]
      cases hfirst : firstFault? values with
      | some e =>
          have hverdict : verdict (n + 1) values = .error e := by simp [verdict, hfirst]
          rw [hverdict]
          exact ⟨rfl, rfl⟩
      | none =>
          have hverdict : ∀ cycles, verdict cycles values = .ok () := by simp [verdict, hfirst]
          obtain ⟨houtcome, hstate⟩ := ih hnext
          rw [hverdict] at houtcome hstate ⊢
          refine ⟨?_, hstate⟩
          rw [← houtcome]
          cases (b.runCycles n (b.readAll s).2).1 <;> rfl

theorem yields_readAll (b : Benchmark σ) {P : σ → Prop} {reply : UInt16 → Span → Reply}
    (h : b.transport.AnswersBy P reply) :
    Yields P b.readAll (b.scenario.entries.map fun entry =>
      (entry, entry.tag.decodeReply (reply entry.tag.block entry.tag.span))) := by
  rcases b with ⟨name, transport, scenario, mode, now⟩
  cases mode with
  | single =>
      have hreads := h.yields_readTags (scenario.entries.map fun entry => (entry, entry.tag))
      rw [List.map_map] at hreads
      exact hreads
  | planned planner =>
      have hreads := h.yields_readTagsPlanned planner
        (scenario.entries.map fun entry => (entry, entry.tag))
      rw [List.map_map] at hreads
      exact hreads

end Benchmark

/-! ## Cycles over memory -/

/-- Data blocks in memory that are connected answer by data block and span, and
every call recorded is a round trip. -/
theorem Memory.traced_answersBy (m : Memory) (n : Nat) :
    transport.traced.AnswersBy (fun s => m.Serves s.1 ∧ s.1.roundTrips = n + s.2.length)
      m.fetch where
  read block span := by
    rintro ⟨s, calls⟩ ⟨⟨hconnected, hblocks⟩, hcount⟩
    simp only at hconnected hblocks hcount
    simp [Transport.traced, Transport.record, transport, roundTrip, fetch, Serves, hconnected,
      hblocks, hcount, Nat.add_assoc]
  readMany := by
    right
    rintro spans ⟨s, calls⟩ ⟨⟨hconnected, hblocks⟩, hcount⟩
    simp only at hconnected hblocks hcount
    simp [Transport.traced, Transport.record, transport, roundTrip, fetch, Serves, hconnected,
      hblocks, hcount, Nat.add_assoc]

namespace Benchmark

open Scenario

def overMemory (name : String) (scenario : Scenario) (now : Memory → Time.Duration)
    (mode : ReadMode) : Benchmark Memory :=
  ⟨name, Memory.transport, scenario, mode, now⟩

def valuesIn (scenario : Scenario) (m : Memory) : Values :=
  scenario.entries.map fun entry => (entry, entry.resultIn m)

section

variable (name : String) (scenario : Scenario) (now : Memory → Time.Duration) (mode : ReadMode)
  (m : Memory)

theorem yields_readAll_overMemory :
    Yields m.Serves (overMemory name scenario now mode).readAll (valuesIn scenario m) :=
  (overMemory name scenario now mode).yields_readAll m.transport_answersBy

theorem roundTrips_readAll {s : Memory} (hs : m.Serves s) :
    ((overMemory name scenario now mode).readAll s).2.roundTrips =
      s.roundTrips + (overMemory name scenario now mode).cycleCalls.length := by
  have hyields := (overMemory name scenario now mode).traced.yields_readAll
    (m.traced_answersBy s.roundTrips)
  obtain ⟨-, -, hcount⟩ := hyields (s, []) ⟨hs, rfl⟩
  rw [(overMemory name scenario now mode).traces_readAll s []] at hcount
  exact hcount

theorem after_overMemory (k : Nat) {s : Memory} (hs : m.Serves s) :
    m.Serves ((overMemory name scenario now mode).after k s) ∧
    ((overMemory name scenario now mode).after k s).roundTrips =
      s.roundTrips + k * (overMemory name scenario now mode).cycleCalls.length := by
  induction k generalizing s with
  | zero => exact ⟨hs, by simp [after]⟩
  | succ k ih =>
      have hnext := (yields_readAll_overMemory name scenario now mode m s hs).2
      have hcount := roundTrips_readAll name scenario now mode m hs
      obtain ⟨hserves, htrips⟩ := ih hnext
      refine ⟨hserves, ?_⟩
      rw [after, htrips, hcount, Nat.succ_mul]
      omega

/-- The verdict of a run, and the state it leaves: that after its cycles, but
disconnected. -/
theorem run_overMemory :
    ((overMemory name scenario now mode).run m).1.map (fun _ => ()) =
      verdict scenario.cycles (valuesIn scenario m) ∧
    ((overMemory name scenario now mode).run m).2 =
      { (overMemory name scenario now mode).after
          (cyclesRun scenario.cycles (verdict scenario.cycles (valuesIn scenario m)))
          { m with connected := true } with connected := false } := by
  have hserves : m.Serves { m with connected := true } := ⟨rfl, rfl⟩
  obtain ⟨hverdict, hstate⟩ := (overMemory name scenario now mode).runCycles_of_yields
    (yields_readAll_overMemory name scenario now mode m) scenario.cycles hserves
  rw [run_of_connect_ok _ rfl, ← hstate, ← hverdict]
  refine ⟨?_, rfl⟩
  -- disconnecting from memory does not fail
  change ((overMemory name scenario now mode).conclude m
    ((overMemory name scenario now mode).runCycles scenario.cycles
      { m with connected := true })).map _ = _
  unfold conclude
  cases ((overMemory name scenario now mode).runCycles scenario.cycles
    { m with connected := true }).1 <;> rfl

theorem run_overMemory_state :
    ((overMemory name scenario now mode).run m).2.connected = false ∧
    ((overMemory name scenario now mode).run m).2.blocks = m.blocks ∧
    ((overMemory name scenario now mode).run m).2.roundTrips = m.roundTrips +
      cyclesRun scenario.cycles ((overMemory name scenario now mode).run m).1 *
        (overMemory name scenario now mode).cycleCalls.length := by
  obtain ⟨hverdict, hstate⟩ := run_overMemory name scenario now mode m
  have hserves : m.Serves { m with connected := true } := ⟨rfl, rfl⟩
  obtain ⟨⟨-, hblocks⟩, htrips⟩ := after_overMemory name scenario now mode m
    (cyclesRun scenario.cycles (verdict scenario.cycles (valuesIn scenario m))) hserves
  have hcycles := cyclesRun_map scenario.cycles ((overMemory name scenario now mode).run m).1
    fun _ => ()
  rw [hstate, ← hcycles, hverdict]
  exact ⟨rfl, hblocks, htrips⟩

theorem length_cycleCalls_overMemory :
    (overMemory name scenario now mode).cycleCalls.length = match mode with
      | .single => scenario.entries.length
      | .planned planner => (planner.plan (scenario.entries.map (·.tag))).length := by
  cases mode <;> simp [cycleCalls, overMemory]

end

theorem pass_valuesIn_iff {scenario : Scenario} {m : Memory} :
    (valuesIn scenario m).Pass ↔ ∀ entry ∈ scenario.entries, entry.HoldsIn m := by
  constructor
  · intro h entry hentry
    exact Entry.passes_resultIn_iff.1 (h entry _ (List.mem_map.2 ⟨entry, hentry, rfl⟩))
  · intro h entry result hmem
    obtain ⟨entry', hentry, heq⟩ := List.mem_map.1 hmem
    cases heq
    exact Entry.passes_resultIn_iff.2 (h entry hentry)

/-- The first fault is that of the first entry of the scenario that does not hold. -/
theorem exists_failsIn_of_firstFault {scenario : Scenario} {m : Memory} {e : Error}
    (h : (valuesIn scenario m).FirstFault e) :
    ∃ passed entry later, scenario.entries = passed ++ entry :: later ∧
      (∀ earlier ∈ passed, earlier.HoldsIn m) ∧ entry.FailsIn m e := by
  obtain ⟨passed, later, entry, result, hvalues, hpassed, hfault⟩ := h
  obtain ⟨before, rest, hentries, hbefore, hrest⟩ := List.map_eq_append_iff.1 hvalues
  obtain ⟨_, after, hcons, hhead, -⟩ := List.map_eq_cons_iff.1 hrest
  cases hhead
  refine ⟨before, entry, after, by rw [hentries, hcons], ?_, Entry.failsIn_of_fault hfault⟩
  intro earlier hearlier
  have hmem : (earlier, earlier.resultIn m) ∈ passed := by
    rw [← hbefore]
    exact List.mem_map.2 ⟨earlier, hearlier, rfl⟩
  exact Entry.passes_resultIn_iff.1 (hpassed _ _ hmem)

/-- Over data blocks in memory all modes of reading come to the same verdict.  A
run succeeds if it has no cycle or every entry of the scenario holds, and fails
with what is wrong with the first entry that does not.  It leaves the data blocks
as they are, disconnected, and takes one round trip for each tag or request in
every cycle, of which there is one if it fails. -/
theorem run_overMemory_verdict (name : String) (scenario : Scenario)
    (now : Memory → Time.Duration) (m : Memory) :
    (∀ mode mode', ((overMemory name scenario now mode).run m).1.map (fun _ => ()) =
      ((overMemory name scenario now mode').run m).1.map (fun _ => ())) ∧
    ∀ mode,
      ((∃ results, ((overMemory name scenario now mode).run m).1 = .ok results) ↔
        scenario.cycles = 0 ∨ ∀ entry ∈ scenario.entries, entry.HoldsIn m) ∧
      (∀ e, ((overMemory name scenario now mode).run m).1 = .error e →
        ∃ passed entry later, scenario.entries = passed ++ entry :: later ∧
          (∀ earlier ∈ passed, earlier.HoldsIn m) ∧ entry.FailsIn m e) ∧
      ((overMemory name scenario now mode).run m).2.connected = false ∧
      ((overMemory name scenario now mode).run m).2.blocks = m.blocks ∧
      ((overMemory name scenario now mode).run m).2.roundTrips = m.roundTrips +
        cyclesRun scenario.cycles ((overMemory name scenario now mode).run m).1 *
          match mode with
          | .single => scenario.entries.length
          | .planned planner => (planner.plan (scenario.entries.map (·.tag))).length := by
  have hverdict := fun mode => (run_overMemory name scenario now mode m).1
  refine ⟨fun mode mode' => (hverdict mode).trans (hverdict mode').symm, ?_⟩
  intro mode
  have hcalls := length_cycleCalls_overMemory name scenario now mode
  obtain ⟨hconnected, hblocks, htrips⟩ := run_overMemory_state name scenario now mode m
  rw [hcalls] at htrips
  refine ⟨?_, ?_, hconnected, hblocks, htrips⟩
  · rw [← pass_valuesIn_iff, ← verdict_eq_ok_iff, ← hverdict mode]
    cases ((overMemory name scenario now mode).run m).1 <;> simp [Except.map]
  · intro e he
    have hfault : verdict scenario.cycles (valuesIn scenario m) = .error e := by
      rw [← hverdict mode, he]
      rfl
    exact exists_failsIn_of_firstFault (firstFault_of_verdict hfault)

/-- The number -42 where 7 is expected, and a tag of a data block that does not
exist, which a plan reads first. -/
def twoFaults : Scenario :=
  { Scenario.new 3 .zero with entries :=
    [⟨"tag-1", "%DB4:10:INT", ⟨⟨4, 10, 0, .int, none⟩, rfl⟩, .int 7⟩,
      ⟨"tag-2", "%DB1:0:TIME", ⟨⟨1, 0, 0, .time, none⟩, rfl⟩, .time .zero⟩] }

theorem run_twoFaults :
    ((overMemory "counter" twoFaults (fun _ => .zero) (.planned Planner.standard)).run
      (Memory.empty.write 4 10 [0xFF, 0xD6])).1 =
        .error (.mismatch "tag-1" "%DB4:10:INT" "7" "-42") ∧
    (∃ passed entry later, twoFaults.entries = passed ++ entry :: later ∧
      (∀ earlier ∈ passed, earlier.HoldsIn (Memory.empty.write 4 10 [0xFF, 0xD6])) ∧
      entry.FailsIn (Memory.empty.write 4 10 [0xFF, 0xD6])
        (.mismatch "tag-1" "%DB4:10:INT" "7" "-42")) ∧
    ((overMemory "counter" twoFaults (fun _ => .zero) .single).run
      (Memory.empty.write 4 10 [0xFF, 0xD6])).2.roundTrips = 2 := by
  obtain ⟨hmodes, hverdict⟩ := run_overMemory_verdict "counter" twoFaults (fun _ => .zero)
    (Memory.empty.write 4 10 [0xFF, 0xD6])
  have hsingle : ((overMemory "counter" twoFaults (fun _ => .zero) .single).run
      (Memory.empty.write 4 10 [0xFF, 0xD6])).1 =
        .error (.mismatch "tag-1" "%DB4:10:INT" "7" "-42") := by
    rfl
  have hplanned : ((overMemory "counter" twoFaults (fun _ => .zero)
      (.planned Planner.standard)).run (Memory.empty.write 4 10 [0xFF, 0xD6])).1 =
        .error (.mismatch "tag-1" "%DB4:10:INT" "7" "-42") := by
    have hsame := hmodes .single (.planned Planner.standard)
    rw [hsingle] at hsame
    generalize ((overMemory "counter" twoFaults (fun _ => .zero) (.planned Planner.standard)).run
      (Memory.empty.write 4 10 [0xFF, 0xD6])).1 = result at hsame ⊢
    cases result with
    | error e =>
        cases hsame
        rfl
    | ok results => cases hsame
  refine ⟨hplanned, (hverdict _).2.1 _ hplanned, ?_⟩
  rw [(hverdict .single).2.2.2.2, hsingle]
  rfl

end Benchmark

end DataBlock
