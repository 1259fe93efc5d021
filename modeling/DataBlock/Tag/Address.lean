import DataBlock.Tag.Basic
/-!
# Address texts

A tag is written `%DB4:140:STRING(10)`: data block, byte offset, type and
declared length.  A `BOOL` has its bit offset after the byte offset, as in
`%DB4:0.3:BOOL`.
-/

namespace DataBlock.Tag

def marker : List Char := ['%', 'D', 'B']

/-- A text of the given fields; the bit offset is written if asked for. -/
def Fields.write (f : Fields) (withBit : Bool) : List Char :=
  marker ++ Nat.toDigits 10 f.block.toNat ++
    ':' :: Nat.toDigits 10 f.byteOffset.toNat ++
    (if withBit then '.' :: Nat.toDigits 10 f.bitOffset.toNat else []) ++
    ':' :: f.type.name.toList ++
    match f.length with
    | some length => '(' :: Nat.toDigits 10 length.toNat ++ [')']
    | none => []

/-- The text of fields that need not be a tag: a bit offset that must not be
there is shown. -/
def Fields.address (f : Fields) : String :=
  String.ofList (f.write (f.type = .bool || f.bitOffset ≠ 0))

def address (t : Tag) : String :=
  String.ofList (t.write (t.type = .bool))

instance : ToString Tag := ⟨address⟩

theorem address_eq (t : Tag) : t.address = t.toFields.address := by
  have hbit : t.bitOffset = 0 ∨ t.type = .bool := by
    have h := t.fault?_eq_none
    unfold Fields.fault? at h
    by_cases hzero : t.bitOffset = 0
    · exact .inl hzero
    · by_cases hbool : t.type = .bool
      · exact .inr hbool
      · split at h <;> simp_all
  rcases hbit with h | h <;> simp [address, Fields.address, h]

end DataBlock.Tag
