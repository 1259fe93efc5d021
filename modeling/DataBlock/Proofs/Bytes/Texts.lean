import DataBlock.Bytes
import DataBlock.Power
import Mathlib.Data.List.Basic
/-!
# Texts in bytes

A text of Latin-1 takes a byte for each character, and one of UTF-16 takes two
bytes for each code unit.  Both are read back from their bytes.
-/

namespace DataBlock.Bytes

def ofLatin1 (s : List Char) : Bytes :=
  s.map fun c => UInt8.ofNat c.toNat

def ofUnits (us : List UInt16) : Bytes :=
  us.flatMap fun u => ofNat 2 u.toNat

@[simp] theorem length_ofLatin1 (s : List Char) : (ofLatin1 s).length = s.length :=
  List.length_map ..

@[simp] theorem length_ofUnits (us : List UInt16) : (ofUnits us).length = 2 * us.length := by
  simp [ofUnits, List.length_flatMap, Nat.mul_comm]

theorem latin1_ofLatin1 {s : List Char} (h : ∀ c ∈ s, c.toNat < 256) :
    latin1 (ofLatin1 s) = String.ofList s := by
  have hchars : (ofLatin1 s).map (fun byte => Char.ofNat byte.toNat) = s := by
    rw [ofLatin1, List.map_map]
    conv_rhs => rw [← List.map_id s]
    apply List.map_congr_left
    intro c hc
    have hbyte : (UInt8.ofNat c.toNat).toNat = c.toNat :=
      UInt8.toNat_ofNat_of_lt' (h c hc)
    simp only [Function.comp_apply, hbyte, Char.ofNat_toNat, id_eq]
  rw [latin1, hchars]

theorem units_ofUnits (us : List UInt16) : units (ofUnits us) = us := by
  induction us with
  | nil => rfl
  | cons u us ih =>
      have hbytes : ofUnits (u :: us) =
          UInt8.ofNat (u.toNat / 256) :: UInt8.ofNat u.toNat :: ofUnits us := rfl
      have hu : UInt16.ofNat ((UInt8.ofNat (u.toNat / 256)).toNat * 256 +
          (UInt8.ofNat u.toNat).toNat) = u := by
        rw [UInt8.toNat_ofNat', UInt8.toNat_ofNat']
        have hlt := u.toNat_lt
        have hsum : u.toNat / 256 % 2 ^ 8 * 256 + u.toNat % 2 ^ 8 = u.toNat := by omega
        rw [hsum, UInt16.ofNat_toNat]
      rw [hbytes, units, hu, ih]

end DataBlock.Bytes
