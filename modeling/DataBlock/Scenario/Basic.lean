import DataBlock.Expectation
import DataBlock.Tag.Parser
/-!
# Scenarios

A scenario says where a controller is, how often its tags are to be read, and
what each tag must hold.  Tags are written one to a line, the address and the
expectation divided by a bar: `%DB4:6:INT | int;42`.
-/

namespace DataBlock

namespace Scenario

structure Entry where
  name : String
  /-- The address as it was given. -/
  address : String
  tag : Tag
  expected : Expectation
  deriving DecidableEq, Repr

/-- A tag and an expectation, still without a name. -/
structure Pair where
  address : String
  tag : Tag
  expected : Expectation
  deriving DecidableEq, Repr

end Scenario

structure Scenario where
  host : Option String
  rack : Option UInt16
  slot : Option UInt16
  cycles : Nat
  cycleTime : Time.Duration
  entries : List Scenario.Entry
  deriving DecidableEq, Repr

namespace Scenario

def new (cycles : Nat) (cycleTime : Time.Duration) : Scenario :=
  ⟨none, none, none, cycles, cycleTime, []⟩

def withHost (s : Scenario) (host : String) : Scenario :=
  { s with host := some host }

def withRackSlot (s : Scenario) (rack slot : UInt16) : Scenario :=
  { s with rack := some rack, slot := some slot }

/-- Blanks around the address and around the expectation are ignored. -/
def Pair.read (address expected : List Char) : Except Error Pair := do
  let address := String.ofList (Text.trim address)
  let tag ← (Tag.parse address).mapError .codec
  let expected ← Expectation.parse (String.ofList (Text.trim expected))
  return ⟨address, tag, expected⟩

/-- Entries with a pair.  A pair with a known address replaces what was
expected there; any other pair makes a new entry, named by its place. -/
def insert (entries : List Entry) (pair : Pair) : List Entry :=
  if entries.any (·.address == pair.address) then
    entries.map fun entry =>
      if entry.address = pair.address then { entry with expected := pair.expected } else entry
  else
    let name := "tag-" ++ toString (entries.length + 1)
    entries ++ [⟨name, pair.address, pair.tag, pair.expected⟩]

def add (s : Scenario) (pair : Pair) : Scenario :=
  { s with entries := insert s.entries pair }

def withTag (s : Scenario) (address expected : String) : Except Error Scenario :=
  return s.add (← Pair.read address.toList expected.toList)

def atLine (number : Nat) (line : List Char) : Error → Error
  | .overflow => .overflow
  | cause => .line number (String.ofList line) cause

/-- The pairs of lines of which the first has the given number.  Lines that do
not have exactly one bar are skipped. -/
def readLines (number : Nat) : List (List Char) → Except Error (List Pair)
  | [] => .ok []
  | line :: lines =>
    let line := Text.trim line
    match line.splitOn '|' with
    | [address, expected] => do
      let pair ← (Pair.read address expected).mapError (atLine number line)
      return pair :: (← readLines (number + 1) lines)
    | _ => readLines (number + 1) lines

def withTags (s : Scenario) (text : String) : Except Error Scenario :=
  return (← readLines 1 (Text.lines text.toList)).foldl add s

end Scenario

end DataBlock
