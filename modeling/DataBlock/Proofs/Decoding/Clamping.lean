import DataBlock.Proofs.Decoding.Encoding
/-!
# Texts longer than their capacity

The controller may report a text that is longer than the tag's capacity, of
which the tag's bytes hold the first units only.  Such a text is decoded as its
beginning, of as many units as the capacity, unless the last of these is the
first of two units of one character: then decoding fails and names it.
-/

namespace DataBlock.Tag

open Bytes
open Text.Utf16 (encode isHigh)

def unitCount (t : Tag) (s : List Char) : Nat :=
  if t.type = .wstring then (encode s).length else s.length

/-- The bytes of a tag whose length reports the whole of a text that is too long
for it, as far as a length can say so, and which hold as many of its units as
the capacity. -/
inductive Overfills (t : Tag) : List Char → Bytes → Prop
  | string (htype : t.type = .string) (greatest : UInt8) (s : List Char)
      (hs : ∀ c ∈ s, c.toNat < 256) (hlong : t.capacity < s.length) :
      Overfills t s ([greatest] ++ ofNat 1 (min s.length 255) ++ ofLatin1 (s.take t.capacity))
  | wstring (htype : t.type = .wstring) (greatest : UInt16) (s : List Char)
      (hlong : t.capacity < (encode s).length) :
      Overfills t s
        (ofNat 2 greatest.toNat ++ ofNat 2 (min (encode s).length 65535) ++
          ofUnits ((encode s).take t.capacity))

/-- The capacity ends after the first of two units of a character. -/
def EndsInside (t : Tag) (s : List Char) (u : UInt16) : Prop :=
  t.type = .wstring ∧ ((encode s).take t.capacity).getLast? = some u ∧ isHigh u = true

variable {t : Tag} {s : List Char} {bytes : Bytes}

theorem Overfills.length_eq (h : t.Overfills s bytes) : bytes.length = t.span.length.toNat := by
  cases h with
  | string htype greatest s hs hlong =>
      simp [length_span, htype]
      omega
  | wstring htype greatest s hlong =>
      simp [length_span, htype]
      omega

/-- The value is the beginning of a text, of as many units as the capacity. -/
def IsBeginning (t : Tag) (s : List Char) (v : Value) : Prop :=
  ∃ kept, kept <+: s ∧ t.unitCount kept = t.capacity ∧ v.type = t.type ∧
    v.asText? = some (String.ofList kept)

theorem decodeSpan_overfilled_string (htype : t.type = .string) (greatest : UInt8)
    (hs : ∀ c ∈ s, c.toNat < 256) (hlong : t.capacity < s.length) :
    ∃ v, t.decodeSpan ([greatest] ++ ofNat 1 (min s.length 255) ++
      ofLatin1 (s.take t.capacity)) = .ok v ∧ t.IsBeginning s v := by
  have hcapacity : t.capacity ≤ 254 := capacity_le (by rw [htype]; rfl)
  have hlength : (s.take t.capacity).length = t.capacity := List.length_take_of_le (by omega)
  have hspan := @decodeSpan_reported t htype (min s.length 255) (by omega)
    (ofLatin1 (s.take t.capacity)) (by rw [length_ofLatin1]; omega) []
    (by rw [length_ofLatin1]; omega) greatest
  have hkept : ∀ c ∈ s.take t.capacity, c.toNat < 256 :=
    fun c hc => hs c (List.mem_of_mem_take hc)
  rw [List.append_nil, latin1_ofLatin1 hkept] at hspan
  refine ⟨_, hspan, s.take t.capacity, List.take_prefix _ _, ?_, htype.symm, rfl⟩
  rw [unitCount, if_neg (by simp [htype]), hlength]

theorem decodeSpan_overfilled_wide (htype : t.type = .wstring) (greatest : UInt16)
    (hlong : t.capacity < (encode s).length) :
    t.decodeSpan (ofNat 2 greatest.toNat ++ ofNat 2 (min (encode s).length 65535) ++
      ofUnits ((encode s).take t.capacity)) =
        match Text.Utf16.decode ((encode s).take t.capacity) with
        | .ok kept => .ok (.wstring (String.ofList kept))
        | .error u => .error (.decode (.unpairedSurrogate u)) := by
  have hcapacity : t.capacity ≤ 16382 := capacity_le (by rw [htype]; rfl)
  have hlength : ((encode s).take t.capacity).length = t.capacity :=
    List.length_take_of_le (by omega)
  have hspan := @decodeSpan_reported_wide t htype (min (encode s).length 65535) (by omega)
    ((encode s).take t.capacity) (by omega) [] (by omega) greatest
  rw [List.append_nil] at hspan
  cases hdecode : Text.Utf16.decode ((encode s).take t.capacity) <;> rw [hspan, hdecode]

theorem decodeSpan_overfilled (h : t.Overfills s bytes) :
    ((∀ u, ¬ t.EndsInside s u) ∧ ∃ v, t.decodeSpan bytes = .ok v ∧ t.IsBeginning s v) ∨
      ∃ u, t.EndsInside s u ∧ t.decodeSpan bytes = .error (.decode (.unpairedSurrogate u)) := by
  cases h with
  | string htype greatest s hs hlong =>
      left
      refine ⟨?_, decodeSpan_overfilled_string htype greatest hs hlong⟩
      rintro u ⟨hwide, -⟩
      rw [htype] at hwide
      contradiction
  | wstring htype greatest s hlong =>
      rw [decodeSpan_overfilled_wide htype greatest hlong]
      -- the capacity ends between two characters or between the two units of one
      rcases Text.Utf16.take_encode s t.capacity with ⟨kept, hprefix, htake | ⟨u, hu, htake⟩⟩
      · left
        rw [htake, Text.Utf16.decode_encode]
        refine ⟨?_, _, rfl, kept, hprefix, ?_, htype.symm, rfl⟩
        · rintro u ⟨-, hlast, hhigh⟩
          rw [htake] at hlast
          rw [Text.Utf16.isHigh_getLast?_encode hlast] at hhigh
          contradiction
        · have hlength := congrArg List.length htake
          rw [List.length_take_of_le (Nat.le_of_lt hlong)] at hlength
          rw [unitCount, if_pos htype, ← hlength]
      · right
        have hdecode : Text.Utf16.decode [u] = .error u :=
          Text.Utf16.decode_cons_of_unpaired (by simp [Text.Utf16.isSurrogate, hu]) (.inl rfl)
        rw [htake, Text.Utf16.decode_encode_append, hdecode]
        exact ⟨u, ⟨htype, by simp [htake], hu⟩, rfl⟩

/-- A text that is too long for its tag is decoded as its beginning of as many
units as the capacity, exactly unless the capacity ends inside a character.
There decoding fails and names the unit that is left without its partner. -/
theorem decode_overfilled (h : t.Overfills s bytes) (rest : Bytes) :
    ((∃ v, t.decode (bytes ++ rest) = .ok v ∧ t.IsBeginning s v) ↔ ∀ u, ¬ t.EndsInside s u) ∧
    ∀ u, t.EndsInside s u ↔ t.decode (bytes ++ rest) = .error (.decode (.unpairedSurrogate u)) := by
  rw [decode_append h.length_eq]
  rcases decodeSpan_overfilled h with ⟨hnot, v, hv, hbeginning⟩ | ⟨u, hu, herror⟩
  · refine ⟨⟨fun _ => hnot, fun _ => ⟨v, hv, hbeginning⟩⟩, fun u => ?_⟩
    simp [hv, hnot u]
  · refine ⟨⟨?_, fun hnot => absurd hu (hnot u)⟩, fun w => ?_⟩
    · rintro ⟨v, hv, -⟩
      rw [herror] at hv
      contradiction
    · constructor
      · intro hw
        obtain rfl : u = w := Option.some.inj (hu.2.1.symm.trans hw.2.1)
        exact herror
      · intro hw
        rw [herror] at hw
        cases hw
        exact hu

def shortGreeting : Tag := ⟨⟨4, 396, 0, .wstring, some 3⟩, rfl⟩

/-- Of four units the last is cut off, once a character of its own and once the
second half of one. -/
theorem decode_shortGreeting :
    (∃ v, shortGreeting.decode [0, 3, 0, 4, 0x00, 0x68, 0xD8, 0x3D, 0xDE, 0x00] = .ok v ∧
      shortGreeting.IsBeginning ['h', '😀', 'ü'] v) ∧
    shortGreeting.decode [0, 3, 0, 4, 0x00, 0x68, 0x00, 0xFC, 0xD8, 0x3D] =
      .error (.decode (.unpairedSurrogate 0xD83D)) := by
  constructor
  · have hoverfills : shortGreeting.Overfills ['h', '😀', 'ü']
        [0, 3, 0, 4, 0x00, 0x68, 0xD8, 0x3D, 0xDE, 0x00] := .wstring rfl 3 _ (by decide)
    apply (decode_overfilled hoverfills []).1.2
    rintro u ⟨-, hlast, hhigh⟩
    obtain rfl : 0xDE00 = u := Option.some.inj hlast
    exact absurd hhigh (by decide)
  · have hoverfills : shortGreeting.Overfills ['h', 'ü', '😀']
        [0, 3, 0, 4, 0x00, 0x68, 0x00, 0xFC, 0xD8, 0x3D] := .wstring rfl 3 _ (by decide)
    apply ((decode_overfilled hoverfills []).2 0xD83D).1
    exact ⟨rfl, rfl, rfl⟩

/-- A text that is too long is not always cut down to a beginning of it. -/
theorem tooLong_refused :
    ¬ ∀ (t : Tag) (s : List Char) (bytes rest : Bytes), t.Overfills s bytes →
      ∃ v kept, t.decode (bytes ++ rest) = .ok v ∧ kept <+: s ∧
        v.asText? = some (String.ofList kept) := by
  intro hall
  have hoverfills : shortGreeting.Overfills ['h', 'ü', '😀']
      [0, 3, 0, 4, 0x00, 0x68, 0x00, 0xFC, 0xD8, 0x3D] := .wstring rfl 3 _ (by decide)
  obtain ⟨v, kept, hv, -⟩ := hall _ _ _ [] hoverfills
  have herror : shortGreeting.decode ([0, 3, 0, 4, 0x00, 0x68, 0x00, 0xFC, 0xD8, 0x3D] ++ []) =
      .error (.decode (.unpairedSurrogate 0xD83D)) := rfl
  rw [herror] at hv
  contradiction

end DataBlock.Tag
