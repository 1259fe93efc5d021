import DataBlock.Tag.Decoding
import DataBlock.Proofs.Bytes.Numbers
/-!
# The bytes of a tag

What holds of the fields of every tag bounds its span, and decoding comes down
to the bytes of the span.
-/

namespace DataBlock.Tag

theorem bitOffset_le (t : Tag) : t.bitOffset.toNat ≤ 7 := by
  have hnone := t.fault?_eq_none
  have hbound : ¬ 7 < t.bitOffset := by
    intro hlarge
    simp [Fields.fault?, hlarge] at hnone
  exact UInt8.le_iff_toNat_le.1 (UInt8.not_lt.1 hbound)

theorem capacity_le {t : Tag} {most : UInt16} (h : t.type.maxLength? = some most) :
    t.capacity ≤ most.toNat := by
  have hnone := t.fault?_eq_none
  rw [Fields.fault?, h] at hnone
  unfold capacity
  cases hlength : t.length with
  | none => exact Nat.zero_le _
  | some length =>
      rw [hlength] at hnone
      have hbound : ¬ most < length := by
        intro hlong
        grind
      exact UInt16.le_iff_toNat_le.1 (UInt16.not_lt.1 hbound)

theorem length_span (t : Tag) :
    t.span.length.toNat = match t.type with
      | .string => 2 + t.capacity
      | .wstring => 4 + 2 * t.capacity
      | type => type.fixedWidth?.getD 0 := by
  have hcapacity : t.capacity < 2 ^ 16 := UInt16.toNat_lt _
  rw [span]
  apply UInt32.toNat_ofNat_of_lt'
  rw [UInt32.size]
  split
  · omega
  · omega
  · cases t.type <;> decide

theorem length_span_pos (t : Tag) : 0 < t.span.length.toNat := by
  rw [length_span]
  cases t.type with
  | string | wstring => exact Nat.add_pos_left (by decide) _
  | _ => exact Nat.succ_pos _

theorem decode_of_lt {t : Tag} {buf : Bytes} (h : buf.length < t.span.length.toNat) :
    t.decode buf = .error (.bufferTooShort t.span.length.toNat buf.length) :=
  if_pos h

theorem decode_of_le {t : Tag} {buf : Bytes} (h : t.span.length.toNat ≤ buf.length) :
    t.decode buf = t.decodeSpan (buf.take t.span.length.toNat) :=
  if_neg (Nat.not_lt_of_le h)

theorem decode_append {t : Tag} {bytes : Bytes} (h : bytes.length = t.span.length.toNat)
    (rest : Bytes) : t.decode (bytes ++ rest) = t.decodeSpan bytes := by
  rw [decode_of_le (by simp [h]), ← h, List.take_left]

/-! ## Bits -/

theorem decodeSpan_bool {t : Tag} (htype : t.type = .bool) {buf : Bytes}
    (hlength : 1 ≤ buf.length) :
    t.decodeSpan buf = .ok (.bool ((buf.numberAt 0 1).testBit t.bitOffset.toNat)) := by
  have hoffset : t.bitOffset.toNat % 8 = t.bitOffset.toNat :=
    Nat.mod_eq_of_lt (Nat.lt_succ_of_le t.bitOffset_le)
  have hbit : buf.readBit 0 t.bitOffset = .ok ((buf.numberAt 0 1).testBit t.bitOffset.toNat) := by
    rw [Bytes.readBit, Bytes.readNat_of_le hlength, hoffset]
    rfl
  simp only [decodeSpan, htype, hbit]
  rfl

/-! ## Texts behind their lengths -/

theorem decodeSpan_string {t : Tag} (htype : t.type = .string) {buf : Bytes}
    (hlength : 2 + t.capacity ≤ buf.length) :
    t.decodeSpan buf = .ok (.string
      (Bytes.latin1 ((buf.drop 2).take (min (buf.numberAt 1 1) t.capacity)))) := by
  have hactual : buf.readNat 1 1 = .ok (buf.numberAt 1 1) := Bytes.readNat_of_le (by omega)
  have htext : buf.slice 2 (min (buf.numberAt 1 1) t.capacity) =
      .ok ((buf.drop 2).take (min (buf.numberAt 1 1) t.capacity)) :=
    Bytes.slice_of_le (by omega)
  simp only [decodeSpan, htype, hactual]
  change Except.map _ (buf.slice 2 (min (buf.numberAt 1 1) t.capacity)) = _
  rw [htext]
  rfl

/-- The code units that count in a wide text. -/
def wideUnits (t : Tag) (buf : Bytes) : List UInt16 :=
  Bytes.units ((buf.drop 4).take (2 * min (buf.numberAt 2 2) t.capacity))

theorem decodeSpan_wstring {t : Tag} (htype : t.type = .wstring) {buf : Bytes}
    (hlength : 4 + 2 * t.capacity ≤ buf.length) :
    t.decodeSpan buf = match Text.Utf16.decode (t.wideUnits buf) with
      | .ok s => .ok (.wstring (String.ofList s))
      | .error u => .error (.decode (.unpairedSurrogate u)) := by
  have hactual : buf.readNat 2 2 = .ok (buf.numberAt 2 2) := Bytes.readNat_of_le (by omega)
  have htext : buf.slice 4 (2 * min (buf.numberAt 2 2) t.capacity) =
      .ok ((buf.drop 4).take (2 * min (buf.numberAt 2 2) t.capacity)) :=
    Bytes.slice_of_le (by omega)
  simp only [decodeSpan, htype, hactual]
  change Except.map _ (buf.utf16 4 (min (buf.numberAt 2 2) t.capacity)) = _
  rw [Bytes.utf16, htext]
  change Except.map _ (match Text.Utf16.decode (t.wideUnits buf) with
    | .ok text => _ | .error unit => _) = _
  cases Text.Utf16.decode (t.wideUnits buf) <;> rfl

end DataBlock.Tag
