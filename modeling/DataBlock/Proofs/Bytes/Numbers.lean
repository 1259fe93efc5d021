import DataBlock.Bytes
import DataBlock.Power
import Mathlib.Data.List.Basic
/-!
# Numbers in bytes

A number inside a buffer is read if its bytes lie in the buffer, and the bytes
of a number are read as that number.  A number with a sign has the bytes of its
two's complement.
-/

namespace DataBlock

namespace Bytes

/-- The number of which `width` bytes from an offset on are the digits. -/
def numberAt (buf : Bytes) (offset width : Nat) : Nat :=
  toNat ((buf.drop offset).take width)

/-- The bytes of a number with a sign: those of its residue. -/
def ofInt (width : Nat) (n : Int) : Bytes :=
  ofNat width (n % (256 ^ width : Nat)).toNat

@[simp] theorem length_ofInt (width : Nat) (n : Int) : (ofInt width n).length = width := by
  simp [ofInt]

theorem slice_of_le {buf : Bytes} {offset width : Nat} (h : offset + width ≤ buf.length) :
    buf.slice offset width = .ok ((buf.drop offset).take width) :=
  if_pos h

theorem slice_of_lt {buf : Bytes} {offset width : Nat} (h : buf.length < offset + width) :
    buf.slice offset width =
      .error (.bufferTooShort (min (offset + width) maxAddress) buf.length) :=
  if_neg (Nat.not_le_of_lt h)

theorem min_maxAddress_eq (n : Nat) :
    min n maxAddress = if n < UInt64.size then n else UInt64.size - 1 := by
  have hpos : 0 < UInt64.size := by decide
  rw [maxAddress]
  split
  · exact Nat.min_eq_left (by omega)
  · exact Nat.min_eq_right (by omega)

theorem readNat_of_le {buf : Bytes} {offset width : Nat} (h : offset + width ≤ buf.length) :
    buf.readNat offset width = .ok (buf.numberAt offset width) := by
  rw [readNat, slice_of_le h]
  rfl

theorem readNat_of_lt {buf : Bytes} {offset width : Nat} (h : buf.length < offset + width) :
    buf.readNat offset width =
      .error (.bufferTooShort (min (offset + width) maxAddress) buf.length) := by
  rw [readNat, slice_of_lt h]
  rfl

theorem readNat_eq_ok_iff {buf : Bytes} {offset width n : Nat} :
    buf.readNat offset width = .ok n ↔
      offset + width ≤ buf.length ∧ n = buf.numberAt offset width := by
  rcases Nat.lt_or_ge buf.length (offset + width) with hlt | hle
  · simp [readNat_of_lt hlt, Nat.not_le_of_lt hlt]
  · simp [readNat_of_le hle, hle, eq_comm]

theorem readNat_eq_error_iff {buf : Bytes} {offset width : Nat} {e : CodecError} :
    buf.readNat offset width = .error e ↔
      buf.length < offset + width ∧
        e = .bufferTooShort (min (offset + width) maxAddress) buf.length := by
  rcases Nat.lt_or_ge buf.length (offset + width) with hlt | hle
  · simp [readNat_of_lt hlt, hlt, eq_comm]
  · simp [readNat_of_le hle, Nat.not_lt_of_le hle]

theorem numberAt_lt (buf : Bytes) (offset width : Nat) :
    buf.numberAt offset width < 256 ^ width := by
  have hlength : ((buf.drop offset).take width).length ≤ width := by
    rw [List.length_take]
    exact Nat.min_le_left _ _
  calc
    buf.numberAt offset width < 256 ^ ((buf.drop offset).take width).length := toNat_lt _
    _ ≤ 256 ^ width := Nat.pow_le_pow_right (by decide) hlength

theorem take_drop_take {buf : Bytes} {offset width n : Nat} (h : offset + width ≤ n) :
    ((buf.take n).drop offset).take width = (buf.drop offset).take width := by
  rw [List.drop_take, List.take_take, Nat.min_eq_left (by omega)]

theorem numberAt_take {buf : Bytes} {offset width n : Nat} (h : offset + width ≤ n) :
    numberAt (buf.take n) offset width = buf.numberAt offset width :=
  congrArg toNat (take_drop_take h)

theorem drop_take_append {before bytes : Bytes} {offset width : Nat}
    (hoffset : before.length = offset) (hwidth : bytes.length = width) (after : Bytes) :
    ((before ++ bytes ++ after).drop offset).take width = bytes := by
  subst hoffset hwidth
  rw [List.append_assoc, List.drop_left, List.take_left]

theorem numberAt_append {before : Bytes} {offset width n : Nat} (hoffset : before.length = offset)
    (hn : n < 256 ^ width) (after : Bytes) :
    numberAt (before ++ ofNat width n ++ after) offset width = n := by
  rw [numberAt, drop_take_append hoffset (length_ofNat width n), toNat_ofNat hn]

theorem readNat_ofNat {width n : Nat} (h : n < 256 ^ width) :
    readNat (ofNat width n) 0 width = .ok n := by
  have hnumber : numberAt ([] ++ ofNat width n ++ []) 0 width = n := numberAt_append rfl h []
  rw [List.nil_append, List.append_nil] at hnumber
  rw [readNat_of_le (by simp), hnumber]

/-! ## Unsigned numbers -/

theorem exists_read_uint16 {buf : Bytes} {offset : Nat} (h : offset + 2 ≤ buf.length) :
    ∃ n : UInt16, FromBytes.read buf offset = .ok n ∧ n.toNat = buf.numberAt offset 2 :=
  ⟨UInt16.ofNat (buf.numberAt offset 2), congrArg (Except.map UInt16.ofNat) (readNat_of_le h),
    UInt16.toNat_ofNat_of_lt' (numberAt_lt buf offset 2)⟩

theorem exists_read_uint32 {buf : Bytes} {offset : Nat} (h : offset + 4 ≤ buf.length) :
    ∃ n : UInt32, FromBytes.read buf offset = .ok n ∧ n.toNat = buf.numberAt offset 4 :=
  ⟨UInt32.ofNat (buf.numberAt offset 4), congrArg (Except.map UInt32.ofNat) (readNat_of_le h),
    UInt32.toNat_ofNat_of_lt' (numberAt_lt buf offset 4)⟩

theorem read_ofNat {α : Type} [FromBytes α] {f : Nat → α} {width n : Nat}
    (hread : ∀ buf, FromBytes.read buf 0 = (readNat buf 0 width).map f) (hn : n < 256 ^ width) :
    FromBytes.read (ofNat width n) 0 = .ok (f n) := by
  rw [hread, readNat_ofNat hn]
  rfl

theorem read_uint8 (n : UInt8) : FromBytes.read (ofNat 1 n.toNat) 0 = .ok n := by
  rw [read_ofNat (fun _ => rfl) n.toNat_lt, UInt8.ofNat_toNat]

theorem read_uint16 (n : UInt16) : FromBytes.read (ofNat 2 n.toNat) 0 = .ok n := by
  rw [read_ofNat (fun _ => rfl) n.toNat_lt, UInt16.ofNat_toNat]

theorem read_uint32 (n : UInt32) : FromBytes.read (ofNat 4 n.toNat) 0 = .ok n := by
  rw [read_ofNat (fun _ => rfl) n.toNat_lt, UInt32.ofNat_toNat]

theorem read_single (x : Binary.Single) : FromBytes.read (ofNat 4 x.bits.toNat) 0 = .ok x := by
  rw [read_ofNat (fun _ => rfl) x.bits.toNat_lt, UInt32.ofNat_toNat]

theorem read_double (x : Binary.Double) : FromBytes.read (ofNat 8 x.bits.toNat) 0 = .ok x := by
  rw [read_ofNat (fun _ => rfl) x.bits.toNat_lt, UInt64.ofNat_toNat]

/-! ## Two's complement -/

theorem residue_lt (width : Nat) (n : Int) : (n % (256 ^ width : Nat)).toNat < 256 ^ width := by
  have hpos : (0 : Int) < (256 ^ width : Nat) := by
    have := Nat.pow_pos (n := width) (show 0 < 256 by decide)
    omega
  have hlt := Int.emod_lt_of_pos n hpos
  omega

theorem read_int8 (n : Int8) : FromBytes.read (ofInt 1 n.toInt) 0 = .ok n := by
  rw [ofInt, read_ofNat (fun _ => rfl) (residue_lt 1 n.toInt)]
  apply congrArg Except.ok
  apply Int8.toInt_inj.1
  rw [UInt8.toInt8_ofNat', Int8.toInt_ofNat', Int.toNat_of_nonneg (Int.emod_nonneg _ (by decide))]
  exact (Int.emod_bmod ..).trans (Int8.toInt_bmod n)

theorem read_int16 (n : Int16) : FromBytes.read (ofInt 2 n.toInt) 0 = .ok n := by
  rw [ofInt, read_ofNat (fun _ => rfl) (residue_lt 2 n.toInt)]
  apply congrArg Except.ok
  apply Int16.toInt_inj.1
  rw [UInt16.toInt16_ofNat', Int16.toInt_ofNat',
    Int.toNat_of_nonneg (Int.emod_nonneg _ (by decide))]
  exact (Int.emod_bmod ..).trans (Int16.toInt_bmod n)

theorem read_int32 (n : Int32) : FromBytes.read (ofInt 4 n.toInt) 0 = .ok n := by
  rw [ofInt, read_ofNat (fun _ => rfl) (residue_lt 4 n.toInt)]
  apply congrArg Except.ok
  apply Int32.toInt_inj.1
  rw [UInt32.toInt32_ofNat', Int32.toInt_ofNat',
    Int.toNat_of_nonneg (Int.emod_nonneg _ (by decide))]
  exact (Int.emod_bmod ..).trans (Int32.toInt_bmod n)

end Bytes

end DataBlock
