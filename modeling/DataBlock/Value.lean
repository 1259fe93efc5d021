import DataBlock.Binary.Shortest
import DataBlock.PlcType
import DataBlock.Time.Clock
import DataBlock.Time.Date
import DataBlock.Time.Duration
/-!
# Decoded values

A value carries its type and content.  Unsigned numbers are held in a wider
type than the controller's, so that no sign is in doubt.
-/

namespace DataBlock

inductive Value where
  | bool (value : Bool)
  | byte (value : UInt16)
  | word (value : UInt16)
  | dword (value : UInt64)
  | sint (value : Int8)
  | usint (value : UInt16)
  | int (value : Int16)
  | uint (value : UInt16)
  | dint (value : Int32)
  | udint (value : UInt64)
  | real (value : Binary.Single)
  | lreal (value : Binary.Double)
  | char (text : String)
  | wchar (text : String)
  | string (text : String)
  | wstring (text : String)
  | time (duration : Time.Duration)
  | date (day : Time.Date)
  | timeOfDay (clock : Time.Clock)
  deriving DecidableEq, Repr

namespace Value

def type : Value → PlcType
  | bool _ => .bool
  | byte _ => .byte
  | word _ => .word
  | dword _ => .dword
  | sint _ => .sint
  | usint _ => .usint
  | int _ => .int
  | uint _ => .uint
  | dint _ => .dint
  | udint _ => .udint
  | real _ => .real
  | lreal _ => .lreal
  | char _ => .char
  | wchar _ => .wchar
  | string _ => .string
  | wstring _ => .wstring
  | time _ => .time
  | date _ => .date
  | timeOfDay _ => .timeOfDay

/-- Values are equal if they are so in type and content; numbers with a point
are compared as numbers. -/
instance : BEq Value where
  beq
    | real a, real b => a == b
    | lreal a, lreal b => a == b
    | a, b => decide (a = b)

def toInt? : Value → Option Int
  | byte n | word n | usint n | uint n => some n.toNat
  | dword n | udint n => some n.toNat
  | sint n => some n.toInt
  | int n => some n.toInt
  | dint n => some n.toInt
  | _ => none

def asBool? : Value → Option Bool
  | bool b => some b
  | _ => none

/-- The number of an integer value, if 64 bits with a sign hold it. -/
def asInt64? (v : Value) : Option Int64 :=
  (v.toInt?.filter (· ≤ Int64.maxValue.toInt)).map Int64.ofInt

/-- The number of an integer value that is not negative, from those `asInt64?`
gives. -/
def asUInt64? (v : Value) : Option UInt64 :=
  (v.asInt64?.filter (0 ≤ ·)).map Int64.toUInt64

def asDouble? : Value → Option Binary.Double
  | real x => some x.widen
  | lreal x => some x
  | _ => none

def asText? : Value → Option String
  | char text | wchar text | string text | wstring text => some text
  | _ => none

def asDuration? : Value → Option Time.Duration
  | time duration => some duration
  | _ => none

def asDate? : Value → Option Time.Date
  | date day => some day
  | _ => none

def asTimeOfDay? : Value → Option Time.Clock
  | timeOfDay clock => some clock
  | _ => none

def render : Value → String
  | bool b => toString b
  | byte n | word n | usint n | uint n => toString n.toNat
  | dword n | udint n => toString n.toNat
  | sint n => toString n.toInt
  | int n => toString n.toInt
  | dint n => toString n.toInt
  | real x => String.ofList x.render
  | lreal x => String.ofList x.render
  | char text | wchar text | string text | wstring text => text
  | time duration => String.ofList duration.render
  | date day => String.ofList day.render
  | timeOfDay clock => String.ofList clock.render

instance : ToString Value := ⟨render⟩

end Value

end DataBlock
