import DataBlock.Tag.Address
/-!
# Building tags field by field

A builder collects settings in any order; the last setting of a field counts.
-/

namespace DataBlock.Tag

inductive Setting where
  | block (number : UInt16)
  | byteOffset (offset : UInt32)
  | bitOffset (offset : UInt8)
  | type (type : PlcType)
  | length (length : UInt16)
  deriving DecidableEq, Repr

structure Builder where
  block : Option UInt16
  byteOffset : Option UInt32
  bitOffset : Option UInt8
  type : Option PlcType
  length : Option UInt16
  deriving DecidableEq, Repr

namespace Builder

inductive Fault where
  | blockMissing
  | byteOffsetMissing
  | typeMissing
  | bitOffsetMissing
  | fields (fault : Tag.Fault)
  deriving DecidableEq, Repr

def Fault.message : Fault → String
  | blockMissing => "block required"
  | byteOffsetMissing => "byte offset required"
  | typeMissing => "plc type required"
  | bitOffsetMissing => "bit offset required for BOOL"
  | fields fault => fault.message

def empty : Builder := ⟨none, none, none, none, none⟩

def set (b : Builder) : Setting → Builder
  | .block number => { b with block := some number }
  | .byteOffset offset => { b with byteOffset := some offset }
  | .bitOffset offset => { b with bitOffset := some offset }
  | .type type => { b with type := some type }
  | .length length => { b with length := some length }

/-- The fields collected.  A bit offset is needed for `BOOL` and refused for
any other type, even if it is zero. -/
def fields (b : Builder) : Except Fault Fields :=
  match b.block, b.byteOffset, b.type with
  | none, _, _ => .error .blockMissing
  | some _, none, _ => .error .byteOffsetMissing
  | some _, some _, none => .error .typeMissing
  | some block, some byteOffset, some type =>
    match b.bitOffset with
    | none =>
      if type = .bool then .error .bitOffsetMissing
      else .ok ⟨block, byteOffset, 0, type, b.length⟩
    | some bitOffset =>
      if type = .bool then .ok ⟨block, byteOffset, bitOffset, type, b.length⟩
      else .error (.fields .bitNotBool)

def tag (b : Builder) : Except Fault Tag := do
  (ofFields (← b.fields)).mapError .fields

def address (b : Builder) : Except Fault String :=
  return (← b.tag).address

end Builder

end DataBlock.Tag
