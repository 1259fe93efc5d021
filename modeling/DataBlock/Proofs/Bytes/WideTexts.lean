import DataBlock.Proofs.Bytes.Numbers
import DataBlock.Proofs.Bytes.Texts
import DataBlock.Proofs.Text.Surrogates
/-!
# Wide texts in a buffer

The code units at an offset of a buffer are numbers of two bytes each.  Where
the buffer reaches far enough they are read as the one text with these units,
or their first surrogate outside a pair is named; where it does not, the error
says how far it would have to reach, as far as 64 bits can say so.
-/

namespace DataBlock.Bytes

open Text.Utf16 (encode FirstUnpaired Unpaired)

def unitsAt (buf : Bytes) (offset count : Nat) : List UInt16 :=
  (List.range count).map fun i => UInt16.ofNat (buf.numberAt (offset + 2 * i) 2)

theorem unitsAt_succ (buf : Bytes) (offset count : Nat) :
    buf.unitsAt offset (count + 1) =
      UInt16.ofNat (buf.numberAt offset 2) :: buf.unitsAt (offset + 2) count := by
  rw [unitsAt, List.range_succ_eq_map, List.map_cons, List.map_map, unitsAt]
  congr 1
  apply List.map_congr_left
  intro i _
  have hplace : offset + 2 * (i + 1) = offset + 2 + 2 * i := by omega
  rw [Function.comp_apply, hplace]

theorem units_take_drop {buf : Bytes} {offset count : Nat}
    (h : offset + 2 * count ≤ buf.length) :
    units ((buf.drop offset).take (2 * count)) = buf.unitsAt offset count := by
  induction count generalizing offset with
  | zero => rfl
  | succ count ih =>
      have hhigh : offset < buf.length := by omega
      have hlow : offset + 1 < buf.length := by omega
      have hdrop : buf.drop offset = buf[offset] :: buf[offset + 1] :: buf.drop (offset + 2) := by
        rw [List.drop_eq_getElem_cons hhigh, List.drop_eq_getElem_cons hlow]
      have hnumber : buf.numberAt offset 2 = buf[offset].toNat * 256 + buf[offset + 1].toNat := by
        rw [numberAt, hdrop]
        change (0 * 256 + buf[offset].toNat) * 256 + buf[offset + 1].toNat = _
        rw [Nat.zero_mul, Nat.zero_add]
      have htake : 2 * (count + 1) = 2 * count + 2 := by omega
      rw [unitsAt_succ, hdrop, htake, List.take_succ_cons, List.take_succ_cons, units, hnumber,
        ih (by omega)]

theorem unitsAt_append {before : Bytes} {offset : Nat} (hoffset : before.length = offset)
    (us : List UInt16) (after : Bytes) :
    unitsAt (before ++ ofUnits us ++ after) offset us.length = us := by
  have hle : offset + 2 * us.length ≤ (before ++ ofUnits us ++ after).length := by
    rw [List.length_append, List.length_append, length_ofUnits]
    omega
  rw [← units_take_drop hle, drop_take_append hoffset (length_ofUnits us), units_ofUnits]

theorem utf16_of_le {buf : Bytes} {offset count : Nat} (h : offset + 2 * count ≤ buf.length) :
    buf.utf16 offset count = match Text.Utf16.decode (buf.unitsAt offset count) with
      | .ok text => .ok (String.ofList text)
      | .error unit => .error (.decode (.unpairedSurrogate unit)) := by
  rw [utf16, slice_of_le h, ← units_take_drop h]
  rfl

theorem utf16_of_lt {buf : Bytes} {offset count : Nat} (h : buf.length < offset + 2 * count) :
    buf.utf16 offset count =
      .error (.bufferTooShort (min (offset + 2 * count) maxAddress) buf.length) := by
  rw [utf16, slice_of_lt h]
  rfl

theorem utf16_eq_ok_iff {buf : Bytes} {offset count : Nat}
    (h : offset + 2 * count ≤ buf.length) {s : String} :
    buf.utf16 offset count = .ok s ↔ encode s.toList = buf.unitsAt offset count := by
  rw [utf16_of_le h, ← Text.Utf16.decode_eq_ok_iff]
  cases Text.Utf16.decode (buf.unitsAt offset count) <;> simp [← String.toList_inj]

theorem utf16_eq_error_iff {buf : Bytes} {offset count : Nat}
    (h : offset + 2 * count ≤ buf.length) {e : CodecError} :
    buf.utf16 offset count = .error e ↔
      ∃ u, e = .decode (.unpairedSurrogate u) ∧ FirstUnpaired (buf.unitsAt offset count) u := by
  rw [utf16_of_le h]
  simp only [← Text.Utf16.decode_eq_error_iff]
  cases Text.Utf16.decode (buf.unitsAt offset count) <;> simp [eq_comm]

theorem exists_utf16_eq_ok_iff {buf : Bytes} {offset count : Nat}
    (h : offset + 2 * count ≤ buf.length) :
    (∃ s, buf.utf16 offset count = .ok s) ↔ ∀ i, ¬ Unpaired (buf.unitsAt offset count) i := by
  rw [← not_exists, ← Text.Utf16.exists_decode_eq_error_iff, utf16_of_le h]
  cases Text.Utf16.decode (buf.unitsAt offset count) <;> simp

theorem le_of_utf16_eq_ok {buf : Bytes} {offset count : Nat} {s : String}
    (h : buf.utf16 offset count = .ok s) : offset + 2 * count ≤ buf.length := by
  by_contra hlt
  rw [utf16_of_lt (Nat.lt_of_not_le hlt)] at h
  contradiction

theorem utf16_append (before : Bytes) (s : String) (after : Bytes) :
    utf16 (before ++ ofUnits (encode s.toList) ++ after) before.length (encode s.toList).length =
      .ok s := by
  have hle : before.length + 2 * (encode s.toList).length ≤
      (before ++ ofUnits (encode s.toList) ++ after).length := by
    rw [List.length_append, List.length_append, length_ofUnits]
    omega
  rw [utf16_eq_ok_iff hle, unitsAt_append rfl]

/-! ## Exactness -/

theorem min_maxAddress (offset count : Nat) :
    min (offset + 2 * count) maxAddress =
      if 2 * count < UInt64.size ∧ offset + 2 * count < UInt64.size then offset + 2 * count
      else UInt64.size - 1 := by
  rw [min_maxAddress_eq]
  exact if_congr (by omega) rfl rfl

/-- Wide texts are read exactly.  A buffer is too short exactly if the last unit
would end past it, and the error says where that is, unless the product or the
sum is past 64 bits.  Otherwise the units are read as the text that they are the
units of, and there is one unless a surrogate is outside a pair, of which the
error names the first.  So every text is read back from its units, and different
units are never read as the same text. -/
theorem utf16_exact (buf : Bytes) (offset count : Nat) :
    ((∃ required actual, buf.utf16 offset count = .error (.bufferTooShort required actual)) ↔
      buf.length < offset + 2 * count) ∧
    (buf.length < offset + 2 * count → buf.utf16 offset count = .error (.bufferTooShort
      (if 2 * count < UInt64.size ∧ offset + 2 * count < UInt64.size then offset + 2 * count
        else UInt64.size - 1) buf.length)) ∧
    (offset + 2 * count ≤ buf.length →
      (∀ s, buf.utf16 offset count = .ok s ↔ encode s.toList = buf.unitsAt offset count) ∧
      ((∃ s, buf.utf16 offset count = .ok s) ↔ ∀ i, ¬ Unpaired (buf.unitsAt offset count) i) ∧
      ∀ e, buf.utf16 offset count = .error e ↔
        ∃ u, e = .decode (.unpairedSurrogate u) ∧ FirstUnpaired (buf.unitsAt offset count) u) ∧
    (∀ (before : Bytes) (s : String) (after : Bytes),
      utf16 (before ++ ofUnits (encode s.toList) ++ after) before.length
        (encode s.toList).length = .ok s) ∧
    ∀ (other : Bytes) (offset' count' : Nat) (s : String),
      buf.utf16 offset count = .ok s → other.utf16 offset' count' = .ok s →
        buf.unitsAt offset count = other.unitsAt offset' count' := by
  refine ⟨?_, ?_, ?_, utf16_append, ?_⟩
  · constructor
    · rintro ⟨required, actual, hshort⟩
      by_contra hle
      obtain ⟨u, hu, -⟩ := (utf16_eq_error_iff (Nat.le_of_not_lt hle)).1 hshort
      contradiction
    · intro hlt
      exact ⟨_, _, utf16_of_lt hlt⟩
  · intro hlt
    rw [utf16_of_lt hlt, min_maxAddress]
  · intro hle
    exact ⟨fun s => utf16_eq_ok_iff hle, exists_utf16_eq_ok_iff hle,
      fun e => utf16_eq_error_iff hle⟩
  · intro other offset' count' s hs hother
    have hunits := (utf16_eq_ok_iff (le_of_utf16_eq_ok hs)).1 hs
    rw [← hunits, (utf16_eq_ok_iff (le_of_utf16_eq_ok hother)).1 hother]

/-- Two characters of which the second has two units, and a first half without
the second at the end. -/
def halved : Bytes := [0x00, 0x68, 0xD8, 0x3D, 0xDE, 0x00, 0xD8, 0x00]

/-- The half is named if it is read, and an offset at the end of the addresses
is refused with the greatest one. -/
theorem utf16_halved :
    halved.utf16 0 3 = .ok "h😀" ∧
    halved.utf16 0 4 = .error (.decode (.unpairedSurrogate 0xD800)) ∧
    halved.utf16 (UInt64.size - 1) 1 = .error (.bufferTooShort (UInt64.size - 1) 8) := by
  refine ⟨?_, ?_, ?_⟩
  · exact (((utf16_exact halved 0 3).2.2.1 (by decide)).1 "h😀").2 (by decide)
  · have hfirst : FirstUnpaired (halved.unitsAt 0 4) 0xD800 :=
      Text.Utf16.decode_eq_error_iff.1 (by rfl)
    exact (((utf16_exact halved 0 4).2.2.1 (by decide)).2.2 _).2 ⟨_, rfl, hfirst⟩
  · have hshort := (utf16_exact halved (UInt64.size - 1) 1).2.1 (by decide)
    rw [if_neg (by decide)] at hshort
    exact hshort

end DataBlock.Bytes
