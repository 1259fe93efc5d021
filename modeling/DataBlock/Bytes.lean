import DataBlock.Binary.Number
import DataBlock.CodecError
import DataBlock.Text.Utf16
/-!
# Reading values from bytes

The controller stores numbers with the most significant byte first.  A read
outside a buffer is an error that says how many bytes would have been needed;
that number is capped at the greatest 64-bit address.
-/

namespace DataBlock

abbrev Bytes := List UInt8

namespace Bytes

/-- The number of which the bytes are the digits, most significant first. -/
def toNat (bytes : Bytes) : Nat :=
  bytes.foldl (fun n byte => n * 256 + byte.toNat) 0

def ofNat (width n : Nat) : Bytes :=
  match width with
  | 0 => []
  | width + 1 => ofNat width (n / 256) ++ [UInt8.ofNat n]

def maxAddress : Nat := UInt64.size - 1

def slice (buf : Bytes) (offset width : Nat) : Except CodecError Bytes :=
  if offset + width ≤ buf.length then .ok ((buf.drop offset).take width)
  else .error (.bufferTooShort (min (offset + width) maxAddress) buf.length)

def readNat (buf : Bytes) (offset width : Nat) : Except CodecError Nat :=
  (buf.slice offset width).map toNat

/-- A bit of a byte, counted from the least significant one; of the number of
the bit only the last three binary digits count. -/
def readBit (buf : Bytes) (offset : Nat) (bit : UInt8) : Except CodecError Bool :=
  (buf.readNat offset 1).map fun byte => byte.testBit (bit.toNat % 8)

/-- The code units of two bytes each; a last odd byte is dropped. -/
def units : Bytes → List UInt16
  | high :: low :: rest => UInt16.ofNat (high.toNat * 256 + low.toNat) :: units rest
  | _ => []

def latin1 (bytes : Bytes) : String :=
  String.ofList (bytes.map fun byte => Char.ofNat byte.toNat)

def utf16 (buf : Bytes) (offset count : Nat) : Except CodecError String := do
  let bytes ← buf.slice offset (2 * count)
  match Text.Utf16.decode bytes.units with
  | .ok text => return String.ofList text
  | .error unit => .error (.decode (.unpairedSurrogate unit))

def utf16Unit (unit : UInt16) : Except CodecError String :=
  match Text.Utf16.scalar? unit with
  | some c => .ok (String.ofList [c])
  | none => .error (.decode (.loneSurrogate unit))

theorem slice_eq_ok_iff {buf bytes : Bytes} {offset width : Nat} :
    buf.slice offset width = .ok bytes ↔
      offset + width ≤ buf.length ∧ bytes = (buf.drop offset).take width := by
  unfold slice
  split <;> next h => simp [h, eq_comm]

theorem length_of_slice {buf bytes : Bytes} {offset width : Nat}
    (h : buf.slice offset width = .ok bytes) : bytes.length = width := by
  obtain ⟨hle, rfl⟩ := slice_eq_ok_iff.1 h
  rw [List.length_take, List.length_drop]
  omega

theorem slice_append (before bytes after : Bytes) :
    slice (before ++ bytes ++ after) before.length bytes.length = .ok bytes := by
  rw [slice_eq_ok_iff]
  refine ⟨by simp, ?_⟩
  simp [List.append_assoc]

theorem toNat_lt (bytes : Bytes) : toNat bytes < 256 ^ bytes.length := by
  have step : ∀ (bytes : List UInt8) (n : Nat),
      bytes.foldl (fun n byte => n * 256 + byte.toNat) n < (n + 1) * 256 ^ bytes.length := by
    intro bytes
    induction bytes with
    | nil => simp
    | cons byte bytes ih =>
      intro n
      have hbyte := byte.toNat_lt
      calc
        _ < (n * 256 + byte.toNat + 1) * 256 ^ bytes.length := ih _
        _ ≤ ((n + 1) * 256) * 256 ^ bytes.length :=
          Nat.mul_le_mul_right _ (by omega)
        _ = _ := by rw [List.length_cons, Nat.pow_succ, Nat.mul_assoc, Nat.mul_comm 256]
  simpa [toNat] using step bytes 0

@[simp] theorem length_ofNat (width n : Nat) : (ofNat width n).length = width := by
  induction width generalizing n with
  | zero => rfl
  | succ width ih => simp [ofNat, ih]

theorem toNat_append_singleton (bytes : Bytes) (byte : UInt8) :
    toNat (bytes ++ [byte]) = toNat bytes * 256 + byte.toNat := by
  simp [toNat]

theorem toNat_ofNat {width n : Nat} (h : n < 256 ^ width) :
    toNat (ofNat width n) = n := by
  induction width generalizing n with
  | zero =>
    have hn : n = 0 := by simpa using h
    simp [ofNat, toNat, hn]
  | succ width ih =>
    have hdiv : n / 256 < 256 ^ width := by
      rw [Nat.div_lt_iff_lt_mul (by decide)]
      simpa [Nat.pow_succ] using h
    rw [ofNat, toNat_append_singleton, ih hdiv, UInt8.toNat_ofNat']
    omega

end Bytes

/-- Types with values at an offset of a buffer.  A record of such values is
given an instance that reads its fields one after the other. -/
class FromBytes (α : Type) where
  read : Bytes → Nat → Except CodecError α

namespace FromBytes

instance : FromBytes UInt8 where
  read buf offset := (buf.readNat offset 1).map UInt8.ofNat

instance : FromBytes UInt16 where
  read buf offset := (buf.readNat offset 2).map UInt16.ofNat

instance : FromBytes UInt32 where
  read buf offset := (buf.readNat offset 4).map UInt32.ofNat

instance : FromBytes UInt64 where
  read buf offset := (buf.readNat offset 8).map UInt64.ofNat

instance : FromBytes Int8 where
  read buf offset := (buf.readNat offset 1).map fun n => (UInt8.ofNat n).toInt8

instance : FromBytes Int16 where
  read buf offset := (buf.readNat offset 2).map fun n => (UInt16.ofNat n).toInt16

instance : FromBytes Int32 where
  read buf offset := (buf.readNat offset 4).map fun n => (UInt32.ofNat n).toInt32

instance : FromBytes Int64 where
  read buf offset := (buf.readNat offset 8).map fun n => (UInt64.ofNat n).toInt64

instance : FromBytes Binary.Single where
  read buf offset := (buf.readNat offset 4).map fun n => ⟨UInt32.ofNat n⟩

instance : FromBytes Binary.Double where
  read buf offset := (buf.readNat offset 8).map fun n => ⟨UInt64.ofNat n⟩

/-- A byte that is not zero is true. -/
instance : FromBytes Bool where
  read buf offset := (buf.readNat offset 1).map (· ≠ 0)

instance {α : Type} [FromBytes α] : FromBytes (Option α) where
  read buf offset := (read (α := α) buf offset).map some

end FromBytes

end DataBlock
