import DataBlock.Transport.Reading
import DataBlock.Scenario.Basic
/-!
# Benchmarks

A benchmark runs a scenario over a transport: it connects, reads all tags once
in each cycle and compares them with what is expected, and disconnects.  The
first failure ends the cycles; disconnecting is tried in any case.
-/

namespace DataBlock

inductive ReadMode where
  | single
  | planned (planner : Planner)
  deriving DecidableEq, Repr

namespace Benchmark

structure Results where
  connectionTime : Time.Duration
  disconnectionTime : Time.Duration
  cycles : Nat
  /-- The time of each cycle. -/
  readTimes : List Time.Duration
  deriving DecidableEq, Repr

namespace Results

/-- The average time of a cycle, in whole nanoseconds; zero without cycles.  The
times are counted with 32 bits.  There is no average if their sum is out of
range or the count comes out as zero. -/
def average? (r : Results) : Option Time.Duration :=
  if r.readTimes = [] then some .zero
  else do (← Time.Duration.sum? r.readTimes).divide? (r.readTimes.length % UInt32.size)

def render? (r : Results) : Option String := do
  let average ← r.average?
  return toString r.connectionTime.millis ++ " ms connect, " ++
    toString r.disconnectionTime.millis ++ " ms disconnect, " ++
    toString average.millis ++ " ms avg read time"

end Results

def fault? (entry : Scenario.Entry) : Except Error Value → Option Error
  | .error e => some (.tag entry.name entry.address e)
  | .ok value =>
    if entry.expected.accepts value then none
    else some (.mismatch entry.name entry.address entry.expected.render value.render)

end Benchmark

/-- A scenario to run over a transport.  The time is read off the transport's
state. -/
structure Benchmark (σ : Type) where
  name : String
  transport : Transport σ
  scenario : Scenario
  mode : ReadMode
  now : σ → Time.Duration

namespace Benchmark

variable {σ : Type}

def timed {α : Type} (b : Benchmark σ) (action : StateM σ α) : StateM σ (α × Time.Duration) := do
  let start := b.now (← get)
  let a ← action
  return (a, .between start (b.now (← get)))

def readAll (b : Benchmark σ) : StateM σ (List (Scenario.Entry × Except Error Value)) :=
  let tags := b.scenario.entries.map fun entry => (entry, entry.tag)
  match b.mode with
  | .single => b.transport.readTags tags
  | .planned planner => b.transport.readTagsPlanned planner tags

/-- The times of so many cycles, or the first fault. -/
def runCycles (b : Benchmark σ) : Nat → StateM σ (Except Error (List Time.Duration))
  | 0 => return .ok []
  | n + 1 => do
    let (values, time) ← b.timed b.readAll
    match values.findSome? fun (entry, value) => fault? entry value with
    | some e => return .error e
    | none => return (← b.runCycles n).map (time :: ·)

/-- Runs the scenario.  Of several failures the first one counts. -/
def run (b : Benchmark σ) : StateM σ (Except Error Results) := do
  let (connected, connectionTime) ← b.timed b.transport.connect
  let outcome ← match connected with
    | .ok () => b.runCycles b.scenario.cycles
    | .error e => pure (.error e)
  let (disconnected, disconnectionTime) ← b.timed b.transport.disconnect
  return do
    let readTimes ← outcome
    disconnected
    return ⟨connectionTime, disconnectionTime, b.scenario.cycles, readTimes⟩

end Benchmark

end DataBlock
