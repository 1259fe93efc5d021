import DataBlock.Bytes
import DataBlock.Value
/-!
# Decoding the bytes of a tag

`Tag.decode` interprets the bytes fetched for a tag.  Bytes past the tag's span
have no influence.  A text whose actual length exceeds its declared capacity is
cut at the capacity.
-/

namespace DataBlock

namespace Value

def ofDays (days : UInt16) : Except CodecError Value :=
  match Time.Date.ofEpochDay? days.toNat with
  | some day => .ok (.date day)
  | none => .error (.decode (.dateOutOfRange days))

def ofMillisOfDay (millis : UInt32) : Except CodecError Value :=
  match Time.Clock.ofMillis? millis.toNat with
  | some clock => .ok (.timeOfDay clock)
  | none => .error (.decode (.timeOfDayOutOfRange millis))

end Value

namespace Tag

open FromBytes (read)

/-- The value of bytes that are exactly a tag's span. -/
def decodeSpan (t : Tag) (buf : Bytes) : Except CodecError Value :=
  match t.type with
  | .bool => return .bool (← buf.readBit 0 t.bitOffset)
  | .byte => return .byte (← read (α := UInt8) buf 0).toUInt16
  | .word => return .word (← read buf 0)
  | .dword => return .dword (← read (α := UInt32) buf 0).toUInt64
  | .sint => return .sint (← read buf 0)
  | .usint => return .usint (← read (α := UInt8) buf 0).toUInt16
  | .int => return .int (← read buf 0)
  | .uint => return .uint (← read buf 0)
  | .dint => return .dint (← read buf 0)
  | .udint => return .udint (← read (α := UInt32) buf 0).toUInt64
  | .real => return .real (← read buf 0)
  | .lreal => return .lreal (← read buf 0)
  | .char => return .char (← buf.slice 0 1).latin1
  | .wchar => return .wchar (← Bytes.utf16Unit (← read buf 0))
  | .string => do
    let actual ← buf.readNat 1 1
    return .string (← buf.slice 2 (min actual t.capacity)).latin1
  | .wstring => do
    let actual ← buf.readNat 2 2
    return .wstring (← buf.utf16 4 (min actual t.capacity))
  | .time => do
    let millis ← read (α := UInt32) buf 0
    return .time (.ofMillis millis.toUInt64)
  | .date => do Value.ofDays (← read buf 0)
  | .timeOfDay => do Value.ofMillisOfDay (← read buf 0)

def decode (t : Tag) (buf : Bytes) : Except CodecError Value :=
  let required := t.span.length.toNat
  if buf.length < required then .error (.bufferTooShort required buf.length)
  else t.decodeSpan (buf.take required)

end Tag

end DataBlock
