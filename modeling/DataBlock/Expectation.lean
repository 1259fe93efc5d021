import DataBlock.Binary.Reading
import DataBlock.Error
import DataBlock.Time.Interval
import DataBlock.Time.Reading
import DataBlock.Value
/-!
# Expected values

An expectation is written as a key and a value, `int;-42`.  The key is a kind
of value or the name of a type; it settles how the value is read and which
numbers are in range.
-/

namespace DataBlock

inductive Expectation where
  | bool (value : Bool)
  /-- A number of any integer type. -/
  | int (value : Int64)
  /-- A written number at both precisions. -/
  | float (single : Binary.Single) (double : Binary.Double)
  /-- Characters of any text type. -/
  | text (value : String)
  | time (duration : Time.Duration)
  | date (day : Time.Date)
  | timeOfDay (clock : Time.Clock)
  deriving DecidableEq, Repr

namespace Expectation

inductive Form where
  | bool
  | int (low high : Int)
  | float
  | char
  | text
  | time
  | date
  | timeOfDay
  deriving DecidableEq, Repr

namespace Form

def signed (bits : Nat) : Form := int (-2 ^ (bits - 1)) (2 ^ (bits - 1) - 1)

def unsigned (bits : Nat) : Form := int 0 (2 ^ bits - 1)

def ofKey? (key : String) : Option Form :=
  match key with
  | "boolean" | "BOOL" => some bool
  | "byte" | "SINT" => some (signed 8)
  | "short" | "INT" => some (signed 16)
  | "int" | "DINT" => some (signed 32)
  | "long" => some (signed 64)
  | "BYTE" | "USINT" => some (unsigned 8)
  | "WORD" | "UINT" => some (unsigned 16)
  | "DWORD" | "UDINT" => some (unsigned 32)
  | "float" | "double" | "REAL" | "LREAL" => some float
  | "char" | "CHAR" | "WCHAR" => some char
  | "string" | "STRING" | "WSTRING" => some text
  | "time" | "TIME" => some time
  | "date" | "DATE" => some date
  | "time_of_day" | "TIME_OF_DAY" => some timeOfDay
  | _ => none

/-- Reads a value.  Blanks around it are ignored, but for characters and texts;
a character is the first of the value; a truth value is true only if it says
so. -/
def read (value : List Char) : Form → Except Time.Duration.Fault Expectation
  | bool => .ok (.bool ((Text.trim value).map Char.toLower == "true".toList))
  | int low high =>
    orMalformed ((Text.integer? low high (Text.trim value)).map fun n => .int (Int64.ofInt n))
  | float => orMalformed do
    let single ← Binary.Single.ofText? (Text.trim value)
    let double ← Binary.Double.ofText? (Text.trim value)
    return .float single double
  | char => orMalformed (value.head?.map fun c => .text (String.ofList [c]))
  | text => .ok (.text (String.ofList value))
  | time => (Time.Duration.ofText value).map .time
  | date => orMalformed ((Time.Date.ofText? (Text.trim value)).map .date)
  | timeOfDay => orMalformed ((Time.Clock.ofText? (Text.trim value)).map .timeOfDay)
where
  orMalformed : Option Expectation → Except Time.Duration.Fault Expectation
    | some e => .ok e
    | none => .error .malformed

end Form

/-- The expectation of a text.  The key ends at the first semicolon. -/
def parse (s : String) : Except Error Expectation :=
  match Text.splitFirst? ';' s.toList with
  | none => .error (.config (.noSeparator s))
  | some (key, value) =>
    let key := String.ofList key
    match Form.ofKey? key with
    | none => .error (.config (.unknownKey key))
    | some form =>
      match form.read value with
      | .ok e => .ok e
      | .error .malformed => .error (.config (.invalidValue key (String.ofList value)))
      | .error .overflow => .error .overflow

/-- Whether a value is the expected one.  Integers are compared as numbers and
texts as texts, of whatever type; numbers with a point at the precision of the
value. -/
def accepts : Expectation → Value → Bool
  | bool a, .bool b => a == b
  | int a, v => v.asInt64? == some a
  | float a _, .real b => a == b
  | float _ a, .lreal b => a == b
  | text a, v => v.asText? == some a
  | time a, .time b => a == b
  | date a, .date b => a == b
  | timeOfDay a, .timeOfDay b => a == b
  | _, _ => false

def render : Expectation → String
  | bool b => toString b
  | int n => toString n.toInt
  | float _ x => String.ofList x.render
  | text s => s
  | time duration => String.ofList duration.render
  | date day => String.ofList day.render
  | timeOfDay clock => String.ofList clock.render

instance : ToString Expectation := ⟨render⟩

end Expectation

end DataBlock
