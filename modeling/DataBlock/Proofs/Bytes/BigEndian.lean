import DataBlock.Proofs.Bytes.Numbers
import DataBlock.Proofs.Results
import Mathlib.Data.List.Induction
import Mathlib.Data.Nat.Digits.Defs
/-!
# Numbers at an offset

Every number of fixed width is read alike: its bytes are its digits to base 256
with the most significant one first, in two's complement if it has a sign.  It is
read if its bytes lie in the buffer, whatever the offset; otherwise the error says
where they would end, as far as 64 bits can say so.
-/

namespace DataBlock

namespace Bytes

/-- The number with the bytes as digits to base 256, most significant first. -/
def base256 (bytes : Bytes) : Nat :=
  Nat.ofDigits 256 (bytes.map UInt8.toNat).reverse

/-- The number with a sign of which `n` is the residue. -/
def twosComplement (width n : Nat) : Int :=
  if 2 * n < 256 ^ width then n else n - (256 ^ width : Nat)

theorem toNat_eq_base256 (bytes : Bytes) : toNat bytes = base256 bytes := by
  induction bytes using List.reverseRecOn with
  | nil => rfl
  | append_singleton bytes byte ih =>
      have hdigits : ((bytes ++ [byte]).map UInt8.toNat).reverse =
          byte.toNat :: (bytes.map UInt8.toNat).reverse := by simp
      rw [toNat_append_singleton, ih, base256, base256, hdigits, Nat.ofDigits_cons,
        Nat.mul_comm, Nat.add_comm]

theorem base256_ofNat {width n : Nat} (h : n < 256 ^ width) :
    base256 (ofNat width n) = n := by
  rw [← toNat_eq_base256, toNat_ofNat h]

/-! ## Addresses of 64 bits -/

/-- Where so many bytes from an offset on end, added up in 64 bits: a sum that
wraps is below its first term, and is replaced by the greatest address. -/
def cappedEnd (offset width : UInt64) : UInt64 :=
  if offset + width < offset then UInt64.ofNat maxAddress else offset + width

/-- A slice found with numbers of 64 bits: its ends must lie in the buffer, in this
order. -/
def sliceWords (buf : Bytes) (offset width : UInt64) : Except CodecError Bytes :=
  let stop := cappedEnd offset width
  if offset ≤ stop ∧ stop.toNat ≤ buf.length then
    .ok ((buf.take stop.toNat).drop offset.toNat)
  else .error (.bufferTooShort stop.toNat buf.length)

theorem toNat_cappedEnd (offset width : UInt64) :
    (cappedEnd offset width).toNat = min (offset.toNat + width.toNat) maxAddress := by
  have hoffset := offset.toNat_lt
  have hwidth := width.toNat_lt
  have hsum := UInt64.toNat_add offset width
  have hmax : maxAddress = 18446744073709551615 := rfl
  have hcap : (UInt64.ofNat maxAddress).toNat = maxAddress := rfl
  unfold cappedEnd
  split
  · next hwrap =>
    rw [UInt64.lt_iff_toNat_lt] at hwrap
    omega
  · next hfit =>
    rw [UInt64.lt_iff_toNat_lt] at hfit
    omega

/-- Sums of 64 bits find the same bytes as exact ones, as no buffer reaches up to
the greatest address. -/
theorem sliceWords_eq_slice {buf : Bytes} (h : buf.length < maxAddress) (offset width : UInt64) :
    buf.sliceWords offset width = buf.slice offset.toNat width.toNat := by
  have hstop := toNat_cappedEnd offset width
  have horder : offset ≤ cappedEnd offset width := by
    have hoffset := offset.toNat_lt
    have hmax : maxAddress = 18446744073709551615 := rfl
    rw [UInt64.le_iff_toNat_le]
    omega
  by_cases hle : offset.toNat + width.toNat ≤ buf.length
  · have hexact : (cappedEnd offset width).toNat = offset.toNat + width.toNat := by omega
    rw [sliceWords, if_pos ⟨horder, by omega⟩, slice_of_le hle, hexact, List.drop_take,
      Nat.add_sub_cancel_left]
  · rw [sliceWords, if_neg (by omega), slice_of_lt (by omega), hstop]

/-! ## Numbers of one width -/

open FromBytes (read)

/-- How a type of `width` bytes is read: `number` is the number of a value, and
`denoted` the one meant by the number that has the bytes as digits.  Nothing but a
short buffer stands in the way, and what is written is read back. -/
structure BigEndian (α : Type) [FromBytes α] (width : Nat) (number : α → Int)
    (denoted : Nat → Int) : Prop where
  read_eq_error_iff (buf : Bytes) (offset : UInt64) (e : CodecError) :
    read (α := α) buf offset.toNat = .error e ↔
      buf.length < offset.toNat + width ∧
        e = .bufferTooShort
          (if offset.toNat + width < UInt64.size then offset.toNat + width else UInt64.size - 1)
          buf.length
  read_eq_ok_iff (buf : Bytes) (offset : UInt64) (x : α) :
    read buf offset.toNat = .ok x ↔
      offset.toNat + width ≤ buf.length ∧
        number x = denoted (base256 ((buf.drop offset.toNat).take width))
  denoted_written (x : α) : denoted (base256 (ofInt width (number x))) = number x
  read_written (buf : Bytes) (offset : UInt64) (x : α) (h : offset.toNat + width ≤ buf.length) :
    read (buf.take offset.toNat ++ ofInt width (number x) ++ buf.drop (offset.toNat + width))
      offset.toNat = .ok x

section

variable {α : Type} [FromBytes α] {width : Nat} {f : Nat → α} {number : α → Int}
  {denoted : Nat → Int}

/-- Values made of the number in the bytes are told by their own numbers, if no two
of them have the same one. -/
theorem read_eq_ok_iff_of_readNat
    (hread : ∀ buf offset, read buf offset = (readNat buf offset width).map f)
    (hnumber : ∀ n < 256 ^ width, number (f n) = denoted n)
    (hinjective : Function.Injective number) (buf : Bytes) (offset : Nat) (x : α) :
    read buf offset = .ok x ↔
      offset + width ≤ buf.length ∧
        number x = denoted (base256 ((buf.drop offset).take width)) := by
  have hvalue := hnumber _ (numberAt_lt buf offset width)
  rw [hread, map_eq_ok_iff, ← toNat_eq_base256]
  change _ ↔ _ ∧ number x = denoted (buf.numberAt offset width)
  rw [← hvalue, hinjective.eq_iff]
  constructor
  · rintro ⟨n, hn, rfl⟩
    obtain ⟨hle, rfl⟩ := readNat_eq_ok_iff.1 hn
    exact ⟨hle, rfl⟩
  · rintro ⟨hle, rfl⟩
    exact ⟨_, readNat_of_le hle, rfl⟩

theorem BigEndian.of_readNat
    (hread : ∀ buf offset, read buf offset = (readNat buf offset width).map f)
    (hnumber : ∀ n < 256 ^ width, number (f n) = denoted n)
    (hinjective : Function.Injective number)
    (hwritten : ∀ x, denoted (number x % (256 ^ width : Nat)).toNat = number x) :
    BigEndian α width number denoted := by
  have hok := read_eq_ok_iff_of_readNat hread hnumber hinjective
  have hdenoted : ∀ x, denoted (base256 (ofInt width (number x))) = number x := by
    intro x
    rw [ofInt, base256_ofNat (residue_lt width _), hwritten]
  refine ⟨?_, fun buf offset => hok buf offset.toNat, hdenoted, ?_⟩
  · intro buf offset e
    rw [hread, map_eq_error_iff, readNat_eq_error_iff, min_maxAddress_eq]
  · intro buf offset x h
    have hoffset : (buf.take offset.toNat).length = offset.toNat := by
      rw [List.length_take]
      omega
    rw [hok, drop_take_append hoffset (length_ofInt width _), hdenoted]
    refine ⟨?_, rfl⟩
    simp only [List.length_append, List.length_take, List.length_drop, length_ofInt]
    omega

theorem BigEndian.of_unsigned
    (hread : ∀ buf offset, read buf offset = (readNat buf offset width).map f)
    (hvalue : ∀ n < 256 ^ width, number (f n) = n) (hinjective : Function.Injective number)
    (hrange : ∀ x, 0 ≤ number x ∧ number x < (256 ^ width : Nat)) :
    BigEndian α width number fun n => n := by
  refine .of_readNat hread hvalue hinjective ?_
  intro x
  obtain ⟨hnonneg, hlt⟩ := hrange x
  rw [Int.emod_eq_of_lt hnonneg hlt, Int.toNat_of_nonneg hnonneg]

/-- A number is that of its residue if it is in the range of its width. -/
theorem twosComplement_residue {n : Int} (hlow : -(256 ^ width : Nat) ≤ 2 * n)
    (hhigh : 2 * n < (256 ^ width : Nat)) :
    twosComplement width (n % (256 ^ width : Nat)).toNat = n := by
  unfold twosComplement
  generalize 256 ^ width = modulus at hlow hhigh ⊢
  rcases Int.lt_or_le n 0 with hneg | hnonneg
  · have hresidue : n % (modulus : Int) = n + modulus := by
      rw [← Int.add_emod_right, Int.emod_eq_of_lt (by omega) (by omega)]
    rw [hresidue, if_neg (by omega)]
    omega
  · rw [Int.emod_eq_of_lt hnonneg (by omega), if_pos (by omega)]
    omega

theorem bmod_eq_twosComplement {n : Nat} (h : n < 256 ^ width) (heven : 256 ^ width % 2 = 0) :
    Int.bmod n (256 ^ width) = twosComplement width n := by
  unfold twosComplement
  generalize 256 ^ width = modulus at h heven ⊢
  rw [Int.bmod_def, Int.emod_eq_of_lt (by omega) (by omega)]
  split <;> split <;> omega

theorem BigEndian.of_signed
    (hread : ∀ buf offset, read buf offset = (readNat buf offset width).map f)
    (hvalue : ∀ n, number (f n) = Int.bmod n (256 ^ width)) (heven : 256 ^ width % 2 = 0)
    (hinjective : Function.Injective number)
    (hrange : ∀ x, -(256 ^ width : Nat) ≤ 2 * number x ∧ 2 * number x < (256 ^ width : Nat)) :
    BigEndian α width number (twosComplement width) := by
  refine .of_readNat hread ?_ hinjective ?_
  · intro n hn
    rw [hvalue, bmod_eq_twosComplement hn heven]
  · intro x
    exact twosComplement_residue (hrange x).1 (hrange x).2

end

/-! ## The types -/

theorem bigEndian_uint8 : BigEndian UInt8 1 (fun x => x.toNat) fun n => n :=
  .of_unsigned (fun _ _ => rfl) (fun _ h => congrArg _ (UInt8.toNat_ofNat_of_lt' h))
    (fun _ _ h => UInt8.toNat_inj.1 (Int.ofNat.inj h))
    (fun x => ⟨Int.natCast_nonneg _, Int.ofNat_lt.2 x.toNat_lt⟩)

theorem bigEndian_uint16 : BigEndian UInt16 2 (fun x => x.toNat) fun n => n :=
  .of_unsigned (fun _ _ => rfl) (fun _ h => congrArg _ (UInt16.toNat_ofNat_of_lt' h))
    (fun _ _ h => UInt16.toNat_inj.1 (Int.ofNat.inj h))
    (fun x => ⟨Int.natCast_nonneg _, Int.ofNat_lt.2 x.toNat_lt⟩)

theorem bigEndian_uint32 : BigEndian UInt32 4 (fun x => x.toNat) fun n => n :=
  .of_unsigned (fun _ _ => rfl) (fun _ h => congrArg _ (UInt32.toNat_ofNat_of_lt' h))
    (fun _ _ h => UInt32.toNat_inj.1 (Int.ofNat.inj h))
    (fun x => ⟨Int.natCast_nonneg _, Int.ofNat_lt.2 x.toNat_lt⟩)

theorem bigEndian_uint64 : BigEndian UInt64 8 (fun x => x.toNat) fun n => n :=
  .of_unsigned (fun _ _ => rfl) (fun _ h => congrArg _ (UInt64.toNat_ofNat_of_lt' h))
    (fun _ _ h => UInt64.toNat_inj.1 (Int.ofNat.inj h))
    (fun x => ⟨Int.natCast_nonneg _, Int.ofNat_lt.2 x.toNat_lt⟩)

theorem bigEndian_int8 : BigEndian Int8 1 Int8.toInt (twosComplement 1) := by
  refine .of_signed (fun _ _ => rfl) ?_ rfl (fun _ _ => Int8.toInt_inj.1) ?_
  · intro n
    rw [UInt8.toInt8_ofNat', Int8.toInt_ofNat']
    rfl
  · intro x
    have hlow := x.le_toInt
    have hhigh := x.toInt_lt
    omega

theorem bigEndian_int16 : BigEndian Int16 2 Int16.toInt (twosComplement 2) := by
  refine .of_signed (fun _ _ => rfl) ?_ rfl (fun _ _ => Int16.toInt_inj.1) ?_
  · intro n
    rw [UInt16.toInt16_ofNat', Int16.toInt_ofNat']
    rfl
  · intro x
    have hlow := x.le_toInt
    have hhigh := x.toInt_lt
    omega

theorem bigEndian_int32 : BigEndian Int32 4 Int32.toInt (twosComplement 4) := by
  refine .of_signed (fun _ _ => rfl) ?_ rfl (fun _ _ => Int32.toInt_inj.1) ?_
  · intro n
    rw [UInt32.toInt32_ofNat', Int32.toInt_ofNat']
    rfl
  · intro x
    have hlow := x.le_toInt
    have hhigh := x.toInt_lt
    omega

theorem bigEndian_int64 : BigEndian Int64 8 Int64.toInt (twosComplement 8) := by
  refine .of_signed (fun _ _ => rfl) ?_ rfl (fun _ _ => Int64.toInt_inj.1) ?_
  · intro n
    rw [UInt64.toInt64_ofNat', Int64.toInt_ofNat']
    rfl
  · intro x
    have hlow := x.le_toInt
    have hhigh := x.toInt_lt
    omega

theorem bigEndian_single : BigEndian Binary.Single 4 (fun x => x.bits.toNat) fun n => n := by
  refine .of_unsigned (fun _ _ => rfl) (fun _ h => congrArg _ (UInt32.toNat_ofNat_of_lt' h)) ?_
    (fun x => ⟨Int.natCast_nonneg _, Int.ofNat_lt.2 x.bits.toNat_lt⟩)
  rintro ⟨a⟩ ⟨b⟩ h
  exact congrArg Binary.Single.mk (UInt32.toNat_inj.1 (Int.ofNat.inj h))

theorem bigEndian_double : BigEndian Binary.Double 8 (fun x => x.bits.toNat) fun n => n := by
  refine .of_unsigned (fun _ _ => rfl) (fun _ h => congrArg _ (UInt64.toNat_ofNat_of_lt' h)) ?_
    (fun x => ⟨Int.natCast_nonneg _, Int.ofNat_lt.2 x.bits.toNat_lt⟩)
  rintro ⟨a⟩ ⟨b⟩ h
  exact congrArg Binary.Double.mk (UInt64.toNat_inj.1 (Int.ofNat.inj h))

/-- Numbers of one, two, four and eight bytes are read at every 64-bit offset of
every buffer, or refused for its length alone, and those with a point as the
patterns of their bits.  The sums that tell the two apart may be made in 64 bits. -/
theorem numbers_bigEndian :
    (BigEndian UInt8 1 (fun x => x.toNat) (fun n => n) ∧
      BigEndian UInt16 2 (fun x => x.toNat) (fun n => n) ∧
      BigEndian UInt32 4 (fun x => x.toNat) (fun n => n) ∧
      BigEndian UInt64 8 (fun x => x.toNat) (fun n => n)) ∧
    (BigEndian Int8 1 Int8.toInt (twosComplement 1) ∧
      BigEndian Int16 2 Int16.toInt (twosComplement 2) ∧
      BigEndian Int32 4 Int32.toInt (twosComplement 4) ∧
      BigEndian Int64 8 Int64.toInt (twosComplement 8)) ∧
    (BigEndian Binary.Single 4 (fun x => x.bits.toNat) (fun n => n) ∧
      BigEndian Binary.Double 8 (fun x => x.bits.toNat) (fun n => n)) ∧
    ∀ (buf : Bytes) (offset width : UInt64), buf.length < maxAddress →
      buf.sliceWords offset width = buf.slice offset.toNat width.toNat :=
  ⟨⟨bigEndian_uint8, bigEndian_uint16, bigEndian_uint32, bigEndian_uint64⟩,
    ⟨bigEndian_int8, bigEndian_int16, bigEndian_int32, bigEndian_int64⟩,
    ⟨bigEndian_single, bigEndian_double⟩, fun _ offset width h => sliceWords_eq_slice h offset width⟩

/-- Three bytes of which the last two are the least number of 16 bits. -/
def least : Bytes := [0x12, 0x80, 0x00]

/-- The last number that lies in the buffer, the first one that does not, and one
at the end of the addresses. -/
theorem numbers_bigEndian_atTheEnds :
    read least 1 = .ok (-32768 : Int16) ∧
    read (α := UInt16) least 2 = .error (.bufferTooShort 4 3) ∧
    read (α := Binary.Double) least (UInt64.size - 1) =
      .error (.bufferTooShort (UInt64.size - 1) 3) ∧
    least.length < maxAddress ∧
    least.sliceWords 0xFFFFFFFFFFFFFFFF 8 = .error (.bufferTooShort (UInt64.size - 1) 3) := by
  obtain ⟨⟨-, huint16, -⟩, ⟨-, hint16, -⟩, ⟨-, hdouble⟩, hwords⟩ := numbers_bigEndian
  have hlength : least.length < maxAddress := by decide
  refine ⟨(hint16.read_eq_ok_iff least 1 _).2 ⟨by decide, by decide⟩,
    (huint16.read_eq_error_iff least 2 _).2 ⟨by decide, rfl⟩,
    (hdouble.read_eq_error_iff least 0xFFFFFFFFFFFFFFFF _).2 ⟨by decide, rfl⟩, hlength, ?_⟩
  rw [hwords least _ _ hlength]
  rfl

end Bytes

end DataBlock
