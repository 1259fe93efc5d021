import DataBlock.Proofs.Decoding.Span
/-!
# The bytes that count

Of a tag only the type, the bit offset and the declared length count for its
value, and of the bytes fetched only some: one bit for a `BOOL`; the actual
length of a text and as many units behind it as this length and the capacity
allow; for any other type the bytes of the span.  Whatever else is in a buffer,
such as the rest of an older text, never shows in the value or in the fault.
-/

namespace DataBlock

namespace Bytes

variable {a b : Bytes} {offset width : Nat}

theorem take_drop_congr (h : ∀ i, offset ≤ i → i < offset + width → a[i]? = b[i]?) :
    (a.drop offset).take width = (b.drop offset).take width := by
  apply List.ext_getElem?
  intro i
  simp only [List.getElem?_take, List.getElem?_drop]
  split
  · next hi => exact h (offset + i) (Nat.le_add_right offset i) (Nat.add_lt_add_left hi offset)
  · rfl

theorem numberAt_congr (h : ∀ i, offset ≤ i → i < offset + width → a[i]? = b[i]?) :
    a.numberAt offset width = b.numberAt offset width :=
  congrArg toNat (take_drop_congr h)

/-! ## Texts behind their lengths -/

/-- The bytes of a text, behind its greatest and its actual length of `width`
bytes each: as many units of `width` bytes as the actual length and the capacity
allow. -/
def textBytes (buf : Bytes) (width capacity : Nat) : Bytes :=
  (buf.drop (2 * width)).take (width * min (buf.numberAt width width) capacity)

def withReported (buf : Bytes) (width n : Nat) : Bytes :=
  buf.take width ++ ofNat width n ++ buf.drop (2 * width)

variable {capacity : Nat}

theorem textBytes_congr
    (h : ∀ i, width ≤ i → i < 2 * width + width * min (a.numberAt width width) capacity →
      a[i]? = b[i]?) :
    a.textBytes width capacity = b.textBytes width capacity := by
  -- the length is among the bytes that count, so both buffers count equally many units
  have hactual : a.numberAt width width = b.numberAt width width :=
    numberAt_congr fun i hlow hhigh => h i hlow (by omega)
  rw [textBytes, textBytes, ← hactual]
  exact take_drop_congr fun i hlow hhigh => h i (by omega) hhigh

theorem textBytes_take {n : Nat} (h : 2 * width + width * capacity ≤ n) :
    textBytes (a.take n) width capacity = a.textBytes width capacity := by
  have hunits : width * min (a.numberAt width width) capacity ≤ width * capacity :=
    Nat.mul_le_mul_left width (Nat.min_le_right _ _)
  have hactual : numberAt (a.take n) width width = a.numberAt width width :=
    numberAt_take (by omega)
  rw [textBytes, hactual, take_drop_take (by omega), textBytes]

theorem length_withReported (h : 2 * width ≤ a.length) (n : Nat) :
    (a.withReported width n).length = a.length := by
  simp [withReported]
  omega

theorem numberAt_withReported (h : width ≤ a.length) {n : Nat} (hn : n < 256 ^ width) :
    (a.withReported width n).numberAt width width = n :=
  numberAt_append (List.length_take_of_le h) hn _

/-- A text that reports more than its capacity is as if it reported the capacity. -/
theorem textBytes_withReported (hlength : width ≤ a.length) (hcapacity : capacity < 256 ^ width)
    (h : capacity ≤ a.numberAt width width) :
    (a.withReported width capacity).textBytes width capacity = a.textBytes width capacity := by
  have hdrop : (a.withReported width capacity).drop (2 * width) = a.drop (2 * width) := by
    have hfront : (a.take width ++ ofNat width capacity).length = 2 * width := by
      rw [List.length_append, List.length_take_of_le hlength, length_ofNat, Nat.two_mul]
    rw [withReported, ← hfront, List.drop_left]
  rw [textBytes, textBytes, hdrop, numberAt_withReported hlength hcapacity, Nat.min_self,
    Nat.min_eq_right h]

end Bytes

namespace Tag

open Bytes

/-- The bytes of each unit of a text and of each length before it. -/
def unitWidth? (t : Tag) : Option Nat :=
  match t.type with
  | .string => some 1
  | .wstring => some 2
  | _ => none

/-- The byte at an offset counts.  The greatest length of a text does not, nor do
the bytes after its last unit. -/
def Relevant (t : Tag) (buf : Bytes) (i : Nat) : Prop :=
  match t.unitWidth? with
  | some width =>
      width ≤ i ∧ i < 2 * width + width * min (buf.numberAt width width) t.capacity
  | none => i < t.span.length.toNat

/-- The buffers are the same where it counts, which for a `BOOL` is a bit. -/
def Agree (t : Tag) (a b : Bytes) : Prop :=
  if t.type = .bool then
    (a.numberAt 0 1).testBit t.bitOffset.toNat = (b.numberAt 0 1).testBit t.bitOffset.toNat
  else ∀ i, t.Relevant a i → a[i]? = b[i]?

variable {t u : Tag} {a b : Bytes} {width : Nat}

theorem decode_congr (htype : u.type = t.type) (hbit : u.bitOffset = t.bitOffset)
    (hlength : u.length = t.length) (buf : Bytes) : u.decode buf = t.decode buf := by
  have hcapacity : u.capacity = t.capacity := by rw [capacity, hlength, capacity]
  have hspan : u.span.length = t.span.length := by rw [span, htype, hcapacity, span]
  have hdecodeSpan : u.decodeSpan = t.decodeSpan := by
    funext bytes
    rw [decodeSpan, htype, hbit, hcapacity, decodeSpan]
  rw [decode, hspan, hdecodeSpan, decode]

/-! ## Bits and texts -/

theorem decode_bool (htype : t.type = .bool) (hlength : t.span.length.toNat ≤ a.length) :
    t.decode a = .ok (.bool ((a.numberAt 0 1).testBit t.bitOffset.toNat)) := by
  have hone : t.span.length.toNat = 1 := by
    rw [length_span, htype]
    rfl
  rw [decode_of_le hlength, hone, decodeSpan_bool htype, numberAt_take (by decide)]
  rw [List.length_take]
  omega

theorem length_span_text (hwidth : t.unitWidth? = some width) :
    t.span.length.toNat = 2 * width + width * t.capacity := by
  unfold unitWidth? at hwidth
  split at hwidth <;> cases hwidth
  · next htype =>
      rw [length_span, htype, Nat.one_mul]
  · next htype =>
      rw [length_span, htype]

theorem capacity_lt (hwidth : t.unitWidth? = some width) : t.capacity < 256 ^ width := by
  unfold unitWidth? at hwidth
  split at hwidth <;> cases hwidth
  · next htype =>
      have hcapacity : t.capacity ≤ 254 := capacity_le (by rw [htype]; rfl)
      omega
  · next htype =>
      have hcapacity : t.capacity ≤ 16382 := capacity_le (by rw [htype]; rfl)
      omega

/-- Nothing of a text counts but the bytes of its units. -/
theorem decodeSpan_text (hwidth : t.unitWidth? = some width)
    (ha : t.span.length.toNat ≤ a.length) (hb : t.span.length.toNat ≤ b.length)
    (h : a.textBytes width t.capacity = b.textBytes width t.capacity) :
    t.decodeSpan a = t.decodeSpan b := by
  rw [length_span] at ha hb
  unfold unitWidth? at hwidth
  split at hwidth <;> cases hwidth
  · next htype =>
      rw [htype] at ha hb
      simp only [textBytes, Nat.one_mul, Nat.mul_one] at h
      rw [decodeSpan_string htype ha, decodeSpan_string htype hb, h]
  · next htype =>
      rw [htype] at ha hb
      have hunits : t.wideUnits a = t.wideUnits b := congrArg Bytes.units h
      rw [decodeSpan_wstring htype ha, decodeSpan_wstring htype hb, hunits]

theorem decode_text (hwidth : t.unitWidth? = some width)
    (ha : t.span.length.toNat ≤ a.length) (hb : t.span.length.toNat ≤ b.length)
    (h : a.textBytes width t.capacity = b.textBytes width t.capacity) :
    t.decode a = t.decode b := by
  have hspan := Nat.le_of_eq (length_span_text hwidth).symm
  rw [decode_of_le ha, decode_of_le hb]
  apply decodeSpan_text hwidth
  · exact Nat.le_of_eq (List.length_take_of_le ha).symm
  · exact Nat.le_of_eq (List.length_take_of_le hb).symm
  · rw [textBytes_take hspan, textBytes_take hspan, h]

/-! ## Buffers that agree -/

theorem decode_eq_of_agree (ha : t.span.length.toNat ≤ a.length)
    (hb : t.span.length.toNat ≤ b.length) (h : t.Agree a b) : t.decode a = t.decode b := by
  -- a value comes from a bit, from a text behind its length or from the whole span
  unfold Agree at h
  by_cases hbool : t.type = .bool
  · rw [if_pos hbool] at h
    rw [decode_bool hbool ha, decode_bool hbool hb, h]
  · rw [if_neg hbool] at h
    unfold Relevant at h
    cases hwidth : t.unitWidth? with
    | some width =>
        rw [hwidth] at h
        exact decode_text hwidth ha hb (textBytes_congr fun i hlow hhigh => h i ⟨hlow, hhigh⟩)
    | none =>
        rw [hwidth] at h
        have htake : a.take t.span.length.toNat = b.take t.span.length.toNat :=
          take_drop_congr fun i (_ : 0 ≤ i) hi => h i (by omega)
        rw [decode_of_le ha, decode_of_le hb, htake]

/-- Where the bytes that count are the same, so is the bit. -/
theorem agree_of_relevant (h : ∀ i, t.Relevant a i → a[i]? = b[i]?) : t.Agree a b := by
  unfold Agree
  split
  · next htype =>
      have hbyte : a.numberAt 0 1 = b.numberAt 0 1 := by
        apply numberAt_congr
        intro i _ hi
        apply h
        simp only [Relevant, unitWidth?, htype, length_span]
        exact hi
      rw [hbyte]
  · exact h

theorem decode_set (ha : t.span.length.toNat ≤ a.length) {i : Nat} (hi : ¬ t.Relevant a i)
    (byte : UInt8) : t.decode (a.set i byte) = t.decode a := by
  have hagree : t.Agree a (a.set i byte) := by
    apply agree_of_relevant
    intro j hj
    have hne : i ≠ j := by
      rintro rfl
      exact hi hj
    rw [List.getElem?_set_ne hne]
  exact (decode_eq_of_agree ha (by rw [List.length_set]; exact ha) hagree).symm

theorem decode_append_of_le (ha : t.span.length.toNat ≤ a.length) (rest : Bytes) :
    t.decode (a ++ rest) = t.decode a := by
  have happend : t.span.length.toNat ≤ (a ++ rest).length := by
    rw [List.length_append]
    omega
  rw [decode_of_le happend, decode_of_le ha, List.take_append_of_le_length ha]

theorem decode_withReported (ha : t.span.length.toNat ≤ a.length)
    (hwidth : t.unitWidth? = some width) (h : t.capacity ≤ a.numberAt width width) :
    t.decode (a.withReported width t.capacity) = t.decode a := by
  have hspan := length_span_text hwidth
  apply decode_text hwidth _ ha
  · exact textBytes_withReported (by omega) (capacity_lt hwidth) h
  · rw [length_withReported (by omega)]
    exact ha

/-- Two tags of the same type, bit offset and declared length decode two buffers
to the same value or the same fault if the buffers agree where it counts,
wherever the tags are.  So no other byte has influence, whether it is in the span
or follows it, and a text that reports more than its capacity is decoded as if it
reported the capacity. -/
theorem decode_determined (htype : u.type = t.type) (hbit : u.bitOffset = t.bitOffset)
    (hlength : u.length = t.length) (ha : t.span.length.toNat ≤ a.length)
    (hb : t.span.length.toNat ≤ b.length) :
    (t.Agree a b → u.decode b = t.decode a) ∧
    (∀ i byte, ¬ t.Relevant a i → u.decode (a.set i byte) = t.decode a) ∧
    (∀ rest, u.decode (a ++ rest) = t.decode a) ∧
    ∀ width, t.unitWidth? = some width → t.capacity < a.numberAt width width →
      u.decode (a.withReported width t.capacity) = t.decode a := by
  simp only [decode_congr htype hbit hlength]
  refine ⟨fun hagree => (decode_eq_of_agree ha hb hagree).symm, ?_, decode_append_of_le ha, ?_⟩
  · intro i byte hi
    exact decode_set ha hi byte
  · intro width hwidth hlong
    exact decode_withReported ha hwidth (Nat.le_of_lt hlong)

def label : Tag := ⟨⟨4, 140, 0, .string, some 3⟩, rfl⟩

def otherLabel : Tag := ⟨⟨9, 6, 0, .string, some 3⟩, rfl⟩

/-- Other bytes around a text of one character leave it as it is, and a length
that is too great is as good as the capacity. -/
theorem decode_labels :
    otherLabel.decode [0, 1, 0x41, 0xFF, 0xFE, 7] = label.decode [3, 1, 0x41, 0x42, 0x43] ∧
    otherLabel.decode [3, 3, 0x41, 0x42, 0x43] = label.decode [3, 200, 0x41, 0x42, 0x43] := by
  have hshort := @decode_determined label otherLabel [3, 1, 0x41, 0x42, 0x43]
    [0, 1, 0x41, 0xFF, 0xFE, 7] rfl rfl rfl (by decide) (by decide)
  have hlong := @decode_determined label otherLabel [3, 200, 0x41, 0x42, 0x43]
    [3, 200, 0x41, 0x42, 0x43] rfl rfl rfl (by decide) (by decide)
  refine ⟨hshort.1 ?_, hlong.2.2.2 1 rfl (by decide)⟩
  intro i hi
  have hrange : 1 ≤ i ∧ i < 3 := hi
  obtain rfl | rfl : i = 1 ∨ i = 2 := by omega
  · rfl
  · rfl

end Tag

end DataBlock
