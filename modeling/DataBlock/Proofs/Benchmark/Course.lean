import DataBlock.Benchmark
import DataBlock.Proofs.Reading.Calls
import DataBlock.Proofs.Reading.Filing
/-!
# The course of a benchmark

A benchmark connects first and disconnects last, each once and in any case.
Between the two it makes the calls of whole cycles: of all of them if every tag
passes in each, otherwise of those up to the first with a fault.  Of the failures
on the way the first one is the result.
-/

namespace DataBlock

namespace Scenario.Entry

/-- The tag was read and decoded, and holds what it must. -/
def Passes (entry : Entry) (result : Except Error Value) : Prop :=
  ∃ value, result = .ok value ∧ entry.expected.accepts value = true

inductive Fault (entry : Entry) : Except Error Value → Error → Prop where
  | unread (cause : Error) : Fault entry (.error cause) (.tag entry.name entry.address cause)
  | mismatch (value : Value) (h : entry.expected.accepts value = false) :
      Fault entry (.ok value)
        (.mismatch entry.name entry.address entry.expected.render value.render)

end Scenario.Entry

namespace Benchmark

open Scenario

abbrev Values := List (Entry × Except Error Value)

def Values.Pass (values : Values) : Prop :=
  ∀ entry result, (entry, result) ∈ values → entry.Passes result

/-- The error is that of the first tag that does not pass. -/
def Values.FirstFault (values : Values) (e : Error) : Prop :=
  ∃ (passed later : Values) (entry : Entry) (result : Except Error Value),
    values = passed ++ (entry, result) :: later ∧ passed.Pass ∧ entry.Fault result e

/-! ## Faults of a cycle -/

theorem fault?_eq_none_iff (entry : Entry) (result : Except Error Value) :
    fault? entry result = none ↔ entry.Passes result := by
  cases result with
  | error cause => simp [fault?, Entry.Passes]
  | ok value => simp [fault?, Entry.Passes]

theorem fault_of_fault? {entry : Entry} {result : Except Error Value} {e : Error}
    (h : fault? entry result = some e) : entry.Fault result e := by
  cases result with
  | error cause =>
      rw [← Option.some.inj h]
      exact .unread cause
  | ok value =>
      cases haccepts : entry.expected.accepts value with
      | true => simp [fault?, haccepts] at h
      | false =>
          simp only [fault?, haccepts] at h
          rw [← Option.some.inj h]
          exact .mismatch value haccepts

def firstFault? (values : Values) : Option Error :=
  values.findSome? fun (entry, value) => fault? entry value

theorem pass_of_firstFault? {values : Values} (h : firstFault? values = none) : values.Pass := by
  intro entry result hmem
  rw [← fault?_eq_none_iff]
  exact List.findSome?_eq_none_iff.1 h _ hmem

theorem firstFault_of_firstFault? {values : Values} {e : Error} (h : firstFault? values = some e) :
    values.FirstFault e := by
  rcases List.findSome?_eq_some_iff.1 h with
    ⟨passed, ⟨entry, result⟩, later, hvalues, hfault, hpassed⟩
  refine ⟨passed, later, entry, result, hvalues, ?_, fault_of_fault? hfault⟩
  intro other result hmem
  rw [← fault?_eq_none_iff]
  exact hpassed _ hmem

/-! ## Cycles -/

variable {σ : Type}

/-- The state after so many cycles, in each of which all tags are read. -/
def after (b : Benchmark σ) : Nat → σ → σ
  | 0, s => s
  | n + 1, s => b.after n (b.readAll s).2

/-- What is read in a cycle, the first of which is cycle zero. -/
def values (b : Benchmark σ) (s : σ) (cycle : Nat) : Values :=
  (b.readAll (b.after cycle s)).1

/-- How the cycles come to an end: after how many of them, and with what. -/
inductive Ends (b : Benchmark σ) (s : σ) (cycles : Nat) :
    Nat → Except Error (List Time.Duration) → Prop where
  /-- All cycles are run if every tag passes in each. -/
  | passed (times : List Time.Duration) (hpass : ∀ cycle < cycles, (b.values s cycle).Pass)
      (htimes : times.length = cycles) : Ends b s cycles cycles (.ok times)
  /-- No cycle is begun after one with a fault. -/
  | failed (cycle : Nat) (e : Error) (hcycle : cycle < cycles)
      (hpass : ∀ earlier < cycle, (b.values s earlier).Pass)
      (hfault : (b.values s cycle).FirstFault e) : Ends b s cycles (cycle + 1) (.error e)

theorem Ends.succ {b : Benchmark σ} {s : σ} {n k : Nat}
    {outcome : Except Error (List Time.Duration)} (hpass : (b.values s 0).Pass)
    (h : b.Ends (b.readAll s).2 n k outcome) (time : Time.Duration) :
    b.Ends s (n + 1) (k + 1) (outcome.map (time :: ·)) := by
  have hvalues : ∀ count, (∀ cycle < count, (b.values (b.readAll s).2 cycle).Pass) →
      ∀ cycle < count + 1, (b.values s cycle).Pass := by
    intro count hcount cycle hcycle
    cases cycle with
    | zero => exact hpass
    | succ cycle => exact hcount cycle (Nat.lt_of_succ_lt_succ hcycle)
  cases h with
  | passed times hrest htimes => exact .passed (time :: times) (hvalues n hrest) (by simp [htimes])
  | failed cycle e hcycle hrest hfault =>
      exact .failed (cycle + 1) e (Nat.succ_lt_succ hcycle) (hvalues cycle hrest) hfault

theorem runCycles_succ (b : Benchmark σ) (n : Nat) (s : σ) :
    b.runCycles (n + 1) s =
      match firstFault? (b.readAll s).1 with
      | some e => (.error e, (b.readAll s).2)
      | none =>
        ((b.runCycles n (b.readAll s).2).1.map
          (Time.Duration.between (b.now s) (b.now (b.readAll s).2) :: ·),
          (b.runCycles n (b.readAll s).2).2) := by
  change ((match firstFault? (b.readAll s).1 with
    | some e => pure (.error e)
    | none => do
      let outcome ← b.runCycles n
      return outcome.map (Time.Duration.between (b.now s) (b.now (b.readAll s).2) :: ·)) :
    StateM σ (Except Error (List Time.Duration))) (b.readAll s).2 = _
  cases firstFault? (b.readAll s).1 <;> rfl

/-! ## Calls -/

def traced (b : Benchmark σ) : Benchmark (σ × List Call) where
  name := b.name
  transport := b.transport.traced
  scenario := b.scenario
  mode := b.mode
  now := fun s => b.now s.1

def cycleCalls (b : Benchmark σ) : List Call :=
  match b.mode with
  | .single => b.scenario.entries.map fun entry => .read entry.tag.block entry.tag.span
  | .planned planner => (planner.plan (b.scenario.entries.map (·.tag))).map (·.call)

theorem names_readAll (b : Benchmark σ) (s : σ) :
    (b.readAll s).1.map Prod.fst = b.scenario.entries := by
  rcases b with ⟨name, transport, scenario, mode, now⟩
  have htags : (scenario.entries.map fun entry => (entry, entry.tag)).map Prod.fst =
      scenario.entries := by
    rw [List.map_map]
    exact List.map_id _
  cases mode with
  | single => exact (transport.names_readTags _ s).trans htags
  | planned planner => exact (transport.names_readTagsPlanned planner _ s).trans htags

theorem traces_readAll (b : Benchmark σ) : Traces b.traced.readAll b.readAll b.cycleCalls := by
  rcases b with ⟨name, transport, scenario, mode, now⟩
  cases mode with
  | single =>
      have hreads := transport.traces_readTags
        (scenario.entries.map fun entry => (entry, entry.tag))
      rw [List.map_map] at hreads
      exact hreads
  | planned planner =>
      have hrequests := transport.traces_readTagsPlanned planner
        (scenario.entries.map fun entry => (entry, entry.tag))
      rw [List.map_map] at hrequests
      exact hrequests

theorem runCycles_ends (b : Benchmark σ) (n : Nat) (s : σ) :
    ∃ k, b.Ends s n k (b.runCycles n s).1 ∧ (b.runCycles n s).2 = b.after k s ∧
      ∀ before, b.traced.runCycles n (s, before) = ((b.runCycles n s).1, (b.runCycles n s).2,
        before ++ (List.replicate k b.cycleCalls).flatten) := by
  induction n generalizing s with
  | zero =>
      refine ⟨0, .passed [] (by simp) rfl, rfl, ?_⟩
      intro before
      simp only [List.replicate_zero, List.flatten_nil, List.append_nil]
      rfl
  | succ n ih =>
      have hread : ∀ before, b.traced.readAll (s, before) =
          ((b.readAll s).1, (b.readAll s).2, before ++ b.cycleCalls) := b.traces_readAll s
      -- the traced benchmark is a benchmark too, and takes the same step
      have hstep := b.runCycles_succ n s
      have htraced := fun before => b.traced.runCycles_succ n (s, before)
      simp only [hread] at htraced
      cases hfirst : firstFault? (b.readAll s).1 with
      | some e =>
          rw [hfirst] at hstep htraced
          rw [hstep]
          refine ⟨1, .failed 0 e (Nat.succ_pos n) (by simp) (firstFault_of_firstFault? hfirst),
            rfl, ?_⟩
          intro before
          rw [htraced]
          simp
      | none =>
          rw [hfirst] at hstep htraced
          rcases ih (b.readAll s).2 with ⟨k, hends, hstate, hcalls⟩
          rw [hstep]
          refine ⟨k + 1, hends.succ (pass_of_firstFault? hfirst) _, hstate, ?_⟩
          intro before
          rw [htraced, hcalls]
          simp [List.replicate_succ, traced]

theorem cycleCalls_ne (b : Benchmark σ) :
    ∀ call ∈ b.cycleCalls, call ≠ .connect ∧ call ≠ .disconnect := by
  intro call hcall
  unfold cycleCalls at hcall
  split at hcall
  · rcases List.mem_map.1 hcall with ⟨entry, _, rfl⟩
    exact ⟨nofun, nofun⟩
  · rcases List.mem_map.1 hcall with ⟨request, _, rfl⟩
    exact request.call_ne

/-! ## Whole runs -/

def calls (b : Benchmark σ) (cycles : Nat) : List Call :=
  [.connect] ++ (List.replicate cycles b.cycleCalls).flatten ++ [.disconnect]

def connected (b : Benchmark σ) (s : σ) : σ :=
  (b.transport.connect s).2

/-- A run as it may go: the calls it makes, and what it comes to. -/
inductive Course (b : Benchmark σ) (s : σ) : List Call → Except Error Results → Prop where
  /-- No cycle is begun without a connection. -/
  | unconnected (e : Error) (hconnect : (b.transport.connect s).1 = .error e) :
      Course b s (b.calls 0) (.error e)
  /-- Whether disconnecting fails as well does not matter. -/
  | failed (cycles : Nat) (e : Error) (hconnect : (b.transport.connect s).1 = .ok ())
      (hcycles : b.Ends (b.connected s) b.scenario.cycles cycles (.error e)) :
      Course b s (b.calls cycles) (.error e)
  | undisconnected (times : List Time.Duration) (e : Error)
      (hconnect : (b.transport.connect s).1 = .ok ())
      (hcycles : b.Ends (b.connected s) b.scenario.cycles b.scenario.cycles (.ok times))
      (hdisconnect :
        (b.transport.disconnect (b.after b.scenario.cycles (b.connected s))).1 = .error e) :
      Course b s (b.calls b.scenario.cycles) (.error e)
  | completed (results : Results) (hconnect : (b.transport.connect s).1 = .ok ())
      (hcycles : b.Ends (b.connected s) b.scenario.cycles b.scenario.cycles
        (.ok results.readTimes))
      (hdisconnect :
        (b.transport.disconnect (b.after b.scenario.cycles (b.connected s))).1 = .ok ())
      (hcount : results.cycles = b.scenario.cycles) :
      Course b s (b.calls b.scenario.cycles) (.ok results)

theorem timed_bind {α β : Type} (b : Benchmark σ) (action : StateM σ α)
    (next : α × Time.Duration → StateM σ β) (s : σ) :
    (b.timed action >>= next) s =
      next ((action s).1, .between (b.now s) (b.now (action s).2)) (action s).2 := rfl

theorem run_of_connect_error (b : Benchmark σ) {s : σ} {e : Error}
    (h : (b.transport.connect s).1 = .error e) :
    b.run s = (.error e, (b.transport.disconnect (b.connected s)).2) := by
  rw [run, timed_bind, h]
  rfl

def conclude (b : Benchmark σ) (s : σ) (cycles : Except Error (List Time.Duration) × σ) :
    Except Error Results := do
  let disconnected := b.transport.disconnect cycles.2
  let readTimes ← cycles.1
  disconnected.1
  return {
    connectionTime := .between (b.now s) (b.now (b.connected s))
    disconnectionTime := .between (b.now cycles.2) (b.now disconnected.2)
    cycles := b.scenario.cycles
    readTimes }

theorem run_of_connect_ok (b : Benchmark σ) {s : σ} (h : (b.transport.connect s).1 = .ok ()) :
    b.run s =
      (b.conclude s (b.runCycles b.scenario.cycles (b.connected s)),
        (b.transport.disconnect (b.runCycles b.scenario.cycles (b.connected s)).2).2) := by
  rw [run, timed_bind, h]
  rfl

theorem course_conclude (b : Benchmark σ) {s : σ} {k : Nat}
    {outcome : Except Error (List Time.Duration)} (hconnect : (b.transport.connect s).1 = .ok ())
    (hends : b.Ends (b.connected s) b.scenario.cycles k outcome) :
    b.Course s (b.calls k) (b.conclude s (outcome, b.after k (b.connected s))) := by
  cases hends with
  | failed cycle e hcycle hpass hfault =>
      exact .failed (cycle + 1) e hconnect (.failed cycle e hcycle hpass hfault)
  | passed times hpass htimes =>
      have hends : b.Ends (b.connected s) b.scenario.cycles b.scenario.cycles (.ok times) :=
        .passed times hpass htimes
      cases hdisconnect :
          (b.transport.disconnect (b.after b.scenario.cycles (b.connected s))).1 with
      | error e =>
          have hresult : b.conclude s (.ok times, b.after b.scenario.cycles (b.connected s)) =
              .error e := by
            rw [conclude, hdisconnect]
            rfl
          rw [hresult]
          exact .undisconnected times e hconnect hends hdisconnect
      | ok _ =>
          rw [conclude, hdisconnect]
          exact .completed _ hconnect hends hdisconnect rfl

theorem traced_run (b : Benchmark σ) (s : σ) :
    ∃ k, b.traced.run (s, []) = ((b.run s).1, (b.run s).2, b.calls k) ∧
      b.Course s (b.calls k) (b.run s).1 := by
  cases hconnect : (b.transport.connect s).1 with
  | error e =>
      have htraced : b.traced.run (s, []) = _ := b.traced.run_of_connect_error hconnect
      rw [htraced, b.run_of_connect_error hconnect]
      exact ⟨0, rfl, .unconnected e hconnect⟩
  | ok _ =>
      rcases b.runCycles_ends b.scenario.cycles (b.connected s) with ⟨k, hends, hstate, hcalls⟩
      have htraced : b.traced.run (s, []) = _ := b.traced.run_of_connect_ok hconnect
      have hcycles : b.traced.runCycles b.traced.scenario.cycles (b.traced.connected (s, [])) = _ :=
        hcalls [.connect]
      rw [htraced, hcycles, b.run_of_connect_ok hconnect]
      refine ⟨k, rfl, ?_⟩
      have hcourse := b.course_conclude hconnect hends
      rw [← hstate] at hcourse
      exact hcourse

/-- A benchmark connects first and disconnects last, each exactly once; in
between it reads.  Recording the calls leaves its result as it is, and each
cycle has one result for every entry of the scenario, in order. -/
theorem run_course (b : Benchmark σ) (s : σ) :
    ∃ reads, b.traced.run (s, []) =
        ((b.run s).1, (b.run s).2, [.connect] ++ reads ++ [.disconnect]) ∧
      (∀ call ∈ reads, call ≠ .connect ∧ call ≠ .disconnect) ∧
      b.Course s ([.connect] ++ reads ++ [.disconnect]) (b.run s).1 ∧
      ∀ cycle, (b.values (b.connected s) cycle).map Prod.fst = b.scenario.entries := by
  rcases b.traced_run s with ⟨k, htraced, hcourse⟩
  refine ⟨(List.replicate k b.cycleCalls).flatten, htraced, ?_, hcourse, ?_⟩
  · intro call hcall
    rcases List.mem_flatten.1 hcall with ⟨calls, hcalls, hcall⟩
    rw [List.eq_of_mem_replicate hcalls] at hcall
    exact b.cycleCalls_ne call hcall
  · intro cycle
    exact b.names_readAll _

end Benchmark

end DataBlock
