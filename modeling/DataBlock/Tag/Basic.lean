import DataBlock.PlcType
import DataBlock.Span
/-!
# Tags

A tag says where a value lies in a data block and what type it has.  Any fields
can be written down; a `Tag` is fields without fault, so whatever holds a tag
can rely on its bit offset and its declared length.
-/

namespace DataBlock

namespace Tag

structure Fields where
  block : UInt16
  byteOffset : UInt32
  bitOffset : UInt8
  type : PlcType
  /-- Declared capacity in characters. -/
  length : Option UInt16
  deriving DecidableEq, Repr

inductive Fault where
  | otherArea
  | noMarker
  | fieldCount
  | blockNumber
  | byteOffset
  | bracketUnbalanced
  | arrayCount
  | parenthesisUnbalanced
  | typeMissing
  | bracketUnexpected
  | bitMissing
  | bitOutOfRange
  | bitNotBool
  | lengthMissing
  | lengthNotString
  | lengthOutOfRange
  | lengthZero
  | lengthTooLong
  /-- A fault found elsewhere, in words of its own. -/
  | other (reason : String)
  deriving DecidableEq, Repr

def Fault.message : Fault → String
  | otherArea => "only data block (%DB) addresses are supported"
  | noMarker => "address must start with %DB"
  | fieldCount => "expected 3 fields separated by ':'"
  | blockNumber => "block number is not a 16-bit non-negative integer"
  | byteOffset => "byte offset is not a 32-bit non-negative integer"
  | bracketUnbalanced => "unbalanced '[' in type"
  | arrayCount => "array count is not a non-negative integer"
  | parenthesisUnbalanced => "unbalanced '(' in type"
  | typeMissing => "missing type"
  | bracketUnexpected => "unexpected bracket in type"
  | bitMissing => "BOOL requires a bit offset"
  | bitOutOfRange => "bit offset out of range [0-7]"
  | bitNotBool => "bit offset only valid for BOOL"
  | lengthMissing => "declared length required for string types"
  | lengthNotString => "declared length only valid for string types"
  | lengthOutOfRange => "declared length out of range"
  | lengthZero => "declared length must be positive"
  | lengthTooLong => "declared length exceeds capacity"
  | other reason => reason

/-- The first fault of the fields.  The bit offset must be at most seven, and
zero but for `BOOL`; a length must be declared for the string types, in their
range, and for no other type. -/
def Fields.fault? (f : Fields) : Option Fault :=
  if 7 < f.bitOffset then some .bitOutOfRange
  else if f.bitOffset ≠ 0 ∧ f.type ≠ .bool then some .bitNotBool
  else
    match f.type.maxLength?, f.length with
    | some _, none => some .lengthMissing
    | some most, some length =>
      if length = 0 then some .lengthZero
      else if most < length then some .lengthTooLong
      else none
    | none, some _ => some .lengthNotString
    | none, none => none

end Tag

/-- Fields without fault. -/
structure Tag extends Tag.Fields where
  fault?_eq_none : toFields.fault? = none
  deriving DecidableEq, Repr

namespace Tag

def ofFields (f : Fields) : Except Fault Tag :=
  match h : f.fault? with
  | none => .ok ⟨f, h⟩
  | some fault => .error fault

/-- Declared capacity; zero for types without one. -/
def capacity (t : Tag) : Nat := (t.length.getD 0).toNat

/-- The bytes to fetch for the tag's value.  A text follows its greatest and
its actual length, which take a byte each, or two each for wide characters. -/
def span (t : Tag) : Span :=
  ⟨t.byteOffset, UInt32.ofNat <| match t.type with
    | .string => 2 + t.capacity
    | .wstring => 4 + 2 * t.capacity
    | type => type.fixedWidth?.getD 0⟩

theorem ofFields_eq_ok_iff {f : Fields} {t : Tag} :
    ofFields f = .ok t ↔ t.toFields = f := by
  unfold ofFields
  split
  · next h =>
    refine ⟨?_, fun heq => ?_⟩
    · rintro ⟨⟩
      rfl
    · subst heq
      rfl
  · next fault h =>
    refine ⟨by simp, fun heq => ?_⟩
    have hnone := t.fault?_eq_none
    rw [heq, h] at hnone
    simp at hnone

theorem ofFields_eq_error_iff {f : Fields} {fault : Fault} :
    ofFields f = .error fault ↔ f.fault? = some fault := by
  unfold ofFields
  split <;> next h => simp [h]

end Tag

end DataBlock
