import DataBlock.Proofs.Bytes.Numbers
import DataBlock.Proofs.Bytes.Texts
import DataBlock.Proofs.Decoding.Span
import DataBlock.Proofs.Text.Surrogates
import DataBlock.Proofs.Time.Calendar
import DataBlock.Proofs.Time.Millis
/-!
# Decoding undoes the encoding of the controller

How the controller stores a value is told by `Encodes`: the bytes of a number
with the most significant one first, and texts behind their greatest and their
actual length.  Bytes that a value leaves open may be any.  Decoding bytes that
encode a value gives this value, whatever follows them.
-/

namespace DataBlock.Tag

open Bytes

/-! ## Texts behind a reported length -/

/-- A text is read as far as its reported length and its capacity reach. -/
theorem decodeSpan_reported {t : Tag} (htype : t.type = .string) {actual : Nat}
    (hactual : actual < 256) {text : Bytes} (htext : text.length = min actual t.capacity)
    (after : Bytes) (hlength : t.capacity ≤ text.length + after.length) {greatest : UInt8} :
    t.decodeSpan ([greatest] ++ ofNat 1 actual ++ text ++ after) = .ok (.string (latin1 text)) := by
  have hnumber : numberAt ([greatest] ++ ofNat 1 actual ++ text ++ after) 1 1 = actual := by
    rw [List.append_assoc]
    exact numberAt_append rfl hactual _
  have hbytes : (([greatest] ++ ofNat 1 actual ++ text ++ after).drop 2).take text.length = text :=
    drop_take_append (by simp) rfl after
  rw [decodeSpan_string htype (by simp; omega), hnumber, ← htext, hbytes]

theorem decodeSpan_reported_wide {t : Tag} (htype : t.type = .wstring) {actual : Nat}
    (hactual : actual < 65536) {us : List UInt16} (hus : us.length = min actual t.capacity)
    (after : Bytes) (hlength : 2 * t.capacity ≤ 2 * us.length + after.length) {greatest : UInt16} :
    t.decodeSpan (ofNat 2 greatest.toNat ++ ofNat 2 actual ++ ofUnits us ++ after) =
      match Text.Utf16.decode us with
      | .ok s => .ok (.wstring (String.ofList s))
      | .error u => .error (.decode (.unpairedSurrogate u)) := by
  have hnumber :
      numberAt (ofNat 2 greatest.toNat ++ ofNat 2 actual ++ ofUnits us ++ after) 2 2 = actual := by
    rw [List.append_assoc]
    exact numberAt_append (length_ofNat 2 _) hactual _
  have hunits :
      t.wideUnits (ofNat 2 greatest.toNat ++ ofNat 2 actual ++ ofUnits us ++ after) = us := by
    rw [wideUnits, hnumber, ← hus, drop_take_append (by simp) (length_ofUnits us), units_ofUnits]
  cases hdecode : Text.Utf16.decode us <;>
    rw [decodeSpan_wstring htype (by simp; omega), hunits, hdecode]

/-! ## Values and their bytes -/

/-- The bytes of a tag's span that the controller stores for a value of the
tag's type. -/
inductive Encodes (t : Tag) : Value → Bytes → Prop where
  /-- The other bits of the byte may be any. -/
  | bool (htype : t.type = .bool) (byte : UInt8) :
      Encodes t (.bool (byte.toNat.testBit t.bitOffset.toNat)) [byte]
  | byte (htype : t.type = .byte) (n : UInt8) : Encodes t (.byte n.toUInt16) (ofNat 1 n.toNat)
  | word (htype : t.type = .word) (n : UInt16) : Encodes t (.word n) (ofNat 2 n.toNat)
  | dword (htype : t.type = .dword) (n : UInt32) :
      Encodes t (.dword n.toUInt64) (ofNat 4 n.toNat)
  | sint (htype : t.type = .sint) (n : Int8) : Encodes t (.sint n) (ofInt 1 n.toInt)
  | usint (htype : t.type = .usint) (n : UInt8) :
      Encodes t (.usint n.toUInt16) (ofNat 1 n.toNat)
  | int (htype : t.type = .int) (n : Int16) : Encodes t (.int n) (ofInt 2 n.toInt)
  | uint (htype : t.type = .uint) (n : UInt16) : Encodes t (.uint n) (ofNat 2 n.toNat)
  | dint (htype : t.type = .dint) (n : Int32) : Encodes t (.dint n) (ofInt 4 n.toInt)
  | udint (htype : t.type = .udint) (n : UInt32) :
      Encodes t (.udint n.toUInt64) (ofNat 4 n.toNat)
  | real (htype : t.type = .real) (x : Binary.Single) :
      Encodes t (.real x) (ofNat 4 x.bits.toNat)
  | lreal (htype : t.type = .lreal) (x : Binary.Double) :
      Encodes t (.lreal x) (ofNat 8 x.bits.toNat)
  | char (htype : t.type = .char) (c : Char) (hc : c.toNat < 256) :
      Encodes t (.char (String.ofList [c])) (ofLatin1 [c])
  | wchar (htype : t.type = .wchar) (c : Char) (hc : c.toNat < 65536) :
      Encodes t (.wchar (String.ofList [c])) (ofNat 2 c.toNat)
  /-- The greatest length and the bytes after the text may be any. -/
  | string (htype : t.type = .string) (greatest : UInt8) (s : List Char)
      (hs : ∀ c ∈ s, c.toNat < 256) (filler : Bytes)
      (hlength : s.length + filler.length = t.capacity) :
      Encodes t (.string (String.ofList s))
        ([greatest] ++ ofNat 1 s.length ++ ofLatin1 s ++ filler)
  /-- The length counts code units, of which a character has one or two. -/
  | wstring (htype : t.type = .wstring) (greatest : UInt16) (s : List Char) (filler : Bytes)
      (hlength : 2 * (Text.Utf16.encode s).length + filler.length = 2 * t.capacity) :
      Encodes t (.wstring (String.ofList s))
        (ofNat 2 greatest.toNat ++ ofNat 2 (Text.Utf16.encode s).length ++
          ofUnits (Text.Utf16.encode s) ++ filler)
  | time (htype : t.type = .time) (duration : Time.Duration) (millis : UInt32)
      (hmillis : duration.nanos = millis.toNat * 1_000_000) :
      Encodes t (.time duration) (ofNat 4 millis.toNat)
  | date (htype : t.type = .date) (day : Time.Date)
      (hfirst : Time.Date.epoch ≤ day) (hlast : day ≤ Time.Date.last) :
      Encodes t (.date day) (ofNat 2 day.sinceEpoch.toNat)
  /-- Whole milliseconds, and no leap second. -/
  | timeOfDay (htype : t.type = .timeOfDay) (clock : Time.Clock) (millis : UInt32)
      (hmillis : clock.seconds * 1_000_000_000 + clock.nanos = millis.toNat * 1_000_000)
      (hleap : clock.nanos < 1_000_000_000) :
      Encodes t (.timeOfDay clock) (ofNat 4 millis.toNat)

namespace Encodes

variable {t : Tag} {v : Value} {bytes : Bytes}

theorem length_eq (h : t.Encodes v bytes) : bytes.length = t.span.length.toNat := by
  cases h <;> simp [length_span, PlcType.fixedWidth?, *] <;> omega

theorem type_eq (h : t.Encodes v bytes) : v.type = t.type := by
  cases h <;> simp [Value.type, *]

theorem decodeSpan_eq (h : t.Encodes v bytes) : t.decodeSpan bytes = .ok v := by
  cases h with
  | bool htype byte =>
      have hbyte : numberAt [byte] 0 1 = byte.toNat := Nat.zero_add byte.toNat
      rw [decodeSpan_bool htype (by simp), hbyte]
  | byte htype n =>
      simp only [decodeSpan, htype, read_uint8]
      rfl
  | word htype n =>
      simp only [decodeSpan, htype, read_uint16]
      rfl
  | dword htype n =>
      simp only [decodeSpan, htype, read_uint32]
      rfl
  | sint htype n =>
      simp only [decodeSpan, htype, read_int8]
      rfl
  | usint htype n =>
      simp only [decodeSpan, htype, read_uint8]
      rfl
  | int htype n =>
      simp only [decodeSpan, htype, read_int16]
      rfl
  | uint htype n =>
      simp only [decodeSpan, htype, read_uint16]
      rfl
  | dint htype n =>
      simp only [decodeSpan, htype, read_int32]
      rfl
  | udint htype n =>
      simp only [decodeSpan, htype, read_uint32]
      rfl
  | real htype x =>
      simp only [decodeSpan, htype, read_single]
      rfl
  | lreal htype x =>
      simp only [decodeSpan, htype, read_double]
      rfl
  | char htype c hc =>
      have hslice : slice (ofLatin1 [c]) 0 1 = .ok (ofLatin1 [c]) :=
        slice_append [] (ofLatin1 [c]) []
      have htext : latin1 (ofLatin1 [c]) = String.ofList [c] := latin1_ofLatin1 (by simpa using hc)
      simp only [decodeSpan, htype, hslice]
      rw [← htext]
      rfl
  | wchar htype c hc =>
      have hunit : (UInt16.ofNat c.toNat).toNat = c.toNat := UInt16.toNat_ofNat_of_lt' hc
      have hread := read_uint16 (UInt16.ofNat c.toNat)
      rw [hunit] at hread
      have htext : utf16Unit (UInt16.ofNat c.toNat) = .ok (String.ofList [c]) := by
        rw [utf16Unit, Text.Utf16.scalar?_ofNat_toNat hc]
      simp only [decodeSpan, htype, hread]
      change Except.map _ (utf16Unit (UInt16.ofNat c.toNat)) = _
      rw [htext]
      rfl
  | string htype greatest s hs filler hlength =>
      have hcapacity : t.capacity ≤ 254 := capacity_le (by rw [htype]; rfl)
      rw [decodeSpan_reported htype (by omega) (by rw [length_ofLatin1]; omega) filler
        (by rw [length_ofLatin1]; omega), latin1_ofLatin1 hs]
  | wstring htype greatest s filler hlength =>
      have hcapacity : t.capacity ≤ 16382 := capacity_le (by rw [htype]; rfl)
      rw [decodeSpan_reported_wide htype (by omega) (by omega) filler (by omega),
        Text.Utf16.decode_encode]
  | time htype duration millis hmillis =>
      have hduration : Time.Duration.ofMillis millis.toUInt64 = duration :=
        Time.Duration.ofMillis_eq hmillis
      simp only [decodeSpan, htype, read_uint32]
      rw [← hduration]
      rfl
  | date htype day hfirst hlast =>
      have hlow := Time.Date.sinceEpoch_le hfirst
      have hhigh := Time.Date.sinceEpoch_le hlast
      rw [Time.Date.sinceEpoch_epoch] at hlow
      rw [Time.Date.sinceEpoch_last] at hhigh
      have hdays : (UInt16.ofNat day.sinceEpoch.toNat).toNat = day.sinceEpoch.toNat := by
        apply UInt16.toNat_ofNat_of_lt'
        rw [UInt16.size]
        omega
      have hday : Time.Date.ofEpochDay? day.sinceEpoch.toNat = some day :=
        Time.Date.ofEpochDay?_of_sinceEpoch (by omega) (by omega)
      have hread := read_uint16 (UInt16.ofNat day.sinceEpoch.toNat)
      rw [hdays] at hread
      simp only [decodeSpan, htype, hread]
      change Value.ofDays (UInt16.ofNat day.sinceEpoch.toNat) = _
      rw [Value.ofDays, hdays, hday]
  | timeOfDay htype clock millis hmillis hleap =>
      have hclock := Time.Clock.ofMillis?_eq_some_iff.2 ⟨hmillis, hleap⟩
      simp only [decodeSpan, htype, read_uint32]
      change Value.ofMillisOfDay millis = _
      rw [Value.ofMillisOfDay, hclock]

theorem decode_eq (h : t.Encodes v bytes) : t.decode bytes = .ok v := by
  rw [decode_of_le (Nat.le_of_eq h.length_eq.symm), ← h.length_eq, List.take_length,
    h.decodeSpan_eq]

end Encodes

/-- Bytes that encode a value are decoded as this value, whatever follows. -/
theorem decode_of_encodes {t : Tag} {v : Value} {bytes : Bytes} (h : t.Encodes v bytes)
    (rest : Bytes) : t.decode (bytes ++ rest) = .ok v ∧ v.type = t.type := by
  rw [decode_append h.length_eq]
  exact ⟨h.decodeSpan_eq, h.type_eq⟩

def greeting : Tag := ⟨⟨4, 396, 0, .wstring, some 5⟩, rfl⟩

/-- The last character has two units; a unit is left over from an older text,
and one byte is past the span. -/
theorem decode_greeting :
    greeting.Encodes (.wstring "üß😀")
      [0, 5, 0, 4, 0x00, 0xFC, 0x00, 0xDF, 0xD8, 0x3D, 0xDE, 0x00, 0xDE, 0x01] ∧
    greeting.decode
      [0, 5, 0, 4, 0x00, 0xFC, 0x00, 0xDF, 0xD8, 0x3D, 0xDE, 0x00, 0xDE, 0x01, 0xAA] =
      .ok (.wstring "üß😀") := by
  have hencodes : greeting.Encodes (.wstring "üß😀")
      [0, 5, 0, 4, 0x00, 0xFC, 0x00, 0xDF, 0xD8, 0x3D, 0xDE, 0x00, 0xDE, 0x01] :=
    .wstring rfl 5 ['ü', 'ß', '😀'] [0xDE, 0x01] rfl
  exact ⟨hencodes, (decode_of_encodes hencodes [0xAA]).1⟩

end DataBlock.Tag
