import DataBlock.Scenario.Basic
/-!
# Scenarios from settings

A scenario can be given by named settings, such as environment variables.  The
tags are the text of a setting, or that of a file named by another one.
-/

namespace DataBlock.Scenario

inductive Setting where
  | host
  | rack
  | slot
  | cycles
  | cycleTime
  | tags
  | tagsFile
  deriving DecidableEq, Repr

namespace Setting

def all : List Setting := [host, rack, slot, cycles, cycleTime, tags, tagsFile]

def name : Setting → String
  | host => "S7TAG_HOST"
  | rack => "S7TAG_RACK"
  | slot => "S7TAG_SLOT"
  | cycles => "S7TAG_CYCLES"
  | cycleTime => "S7TAG_CYCLE_TIME_MS"
  | tags => "S7TAG_TAGS"
  | tagsFile => "S7TAG_TAGS_FILE"

end Setting

structure Source where
  lookup : String → Option String
  /-- The text of a file, or why it cannot be read. -/
  fileText : String → Except String String

namespace Source

def get? (source : Source) (setting : Setting) : Option String :=
  source.lookup setting.name

/-- A number of 64 bits with a sign.  Minus one stands for no number. -/
def integer? (source : Source) (setting : Setting) : Except Error (Option Int) :=
  match source.get? setting with
  | none => .ok none
  | some text =>
    match Text.integer? Int64.minValue.toInt Int64.maxValue.toInt (Text.trim text.toList) with
    | none => .error (.config (.notInteger setting.name text))
    | some n => .ok (if n = -1 then none else some n)

def natural? (source : Source) (setting : Setting) (most : Nat) : Except Error (Option Nat) := do
  match ← source.integer? setting with
  | none => return none
  | some n =>
    if n < 0 ∨ most < n then .error (.config (.outOfRange setting.name most n))
    else return some n.toNat

def natural (source : Source) (setting : Setting) (most : Nat) : Except Error Nat := do
  match ← source.natural? setting most with
  | some n => return n
  | none => .error (.config (.missing setting.name))

/-- The text of the tags; it is empty if nothing says where it is. -/
def tagsText (source : Source) : Except Error String :=
  match source.get? .tags, source.get? .tagsFile with
  | some text, _ => .ok text
  | none, some path => (source.fileText path).mapError fun reason =>
      .config (.unreadable path reason)
  | none, none => .ok ""

end Source

/-- The scenario of the settings.  Of several faults, the first one in the order
cycles, cycle time, rack, slot, tags is the error. -/
def ofSource (source : Source) : Except Error Scenario := do
  let cycles ← source.natural .cycles (UInt32.size - 1)
  let cycleTime ← source.natural .cycleTime (UInt32.size - 1)
  let host := (source.get? .host).filter fun text => Text.trim text.toList ≠ []
  let rack ← source.natural? .rack (UInt16.size - 1)
  let slot ← source.natural? .slot (UInt16.size - 1)
  let text ← source.tagsText
  let scenario := new cycles (.ofMillis (UInt64.ofNat cycleTime))
  { scenario with
    host := host
    rack := rack.map UInt16.ofNat
    slot := slot.map UInt16.ofNat }.withTags text

end DataBlock.Scenario
