import DataBlock.Proofs.Decoding.Span
import DataBlock.Proofs.Text.Surrogates
import DataBlock.Proofs.Time.Calendar
import DataBlock.Proofs.Time.Millis
/-!
# When decoding fails

Decoding needs the bytes of the tag's span and reads nothing past them, whatever
lengths the bytes report.  It refuses bytes of three types only: a wide
character that is a surrogate, a wide text with a surrogate outside a pair, and
a time of day past the end of the day.
-/

namespace DataBlock.Tag

open Bytes

/-- The bytes stand for no value of the tag's type. -/
def Unreadable (t : Tag) (buf : Bytes) : Prop :=
  match t.type with
  | .wchar => 0xD800 ≤ buf.numberAt 0 2 ∧ buf.numberAt 0 2 ≤ 0xDFFF
  | .wstring => ∃ i, Text.Utf16.Unpaired (t.wideUnits buf) i
  | .timeOfDay => 86_400_000 ≤ buf.numberAt 0 4
  | _ => False

/-- What becomes of bytes that are enough: a value of the tag's type, or a fault
if they stand for no value. -/
def Decided (t : Tag) (buf : Bytes) (result : Except CodecError Value) : Prop :=
  (¬ t.Unreadable buf ∧ ∃ v, result = .ok v ∧ v.type = t.type) ∨
    (t.Unreadable buf ∧ ∃ fault, result = .error (.decode fault))

variable {t : Tag} {buf : Bytes}

theorem decided_wchar (htype : t.type = .wchar) (hlength : 2 ≤ buf.length) :
    t.Decided buf (t.decodeSpan buf) := by
  rcases exists_read_uint16 (by omega : 0 + 2 ≤ buf.length) with ⟨unit, hread, hunit⟩
  have hdecode : t.decodeSpan buf = (utf16Unit unit).map Value.wchar := by
    simp only [decodeSpan, htype, hread]
    rfl
  have hsurrogate : Text.Utf16.isSurrogate unit = true ↔ t.Unreadable buf := by
    rw [Text.Utf16.isSurrogate_iff, hunit]
    simp only [Unreadable, htype]
  rw [hdecode, utf16Unit]
  cases h : Text.Utf16.isSurrogate unit with
  | false =>
      rw [Text.Utf16.scalar?_of_not_isSurrogate h]
      left
      refine ⟨?_, _, rfl, htype.symm⟩
      rw [← hsurrogate, h]
      exact Bool.false_ne_true
  | true =>
      rw [Text.Utf16.scalar?_of_isSurrogate h]
      exact .inr ⟨hsurrogate.1 h, _, rfl⟩

theorem decided_wstring (htype : t.type = .wstring) (hlength : 4 + 2 * t.capacity ≤ buf.length) :
    t.Decided buf (t.decodeSpan buf) := by
  have hunpaired := Text.Utf16.exists_decode_eq_error_iff (t.wideUnits buf)
  have hunreadable : t.Unreadable buf ↔ ∃ i, Text.Utf16.Unpaired (t.wideUnits buf) i := by
    simp only [Unreadable, htype]
  rw [decodeSpan_wstring htype hlength, Decided, hunreadable, ← hunpaired]
  cases Text.Utf16.decode (t.wideUnits buf) with
  | ok s => exact .inl ⟨by simp, _, rfl, htype.symm⟩
  | error u => exact .inr ⟨⟨u, rfl⟩, _, rfl⟩

theorem decided_timeOfDay (htype : t.type = .timeOfDay) (hlength : 4 ≤ buf.length) :
    t.Decided buf (t.decodeSpan buf) := by
  rcases exists_read_uint32 (by omega : 0 + 4 ≤ buf.length) with ⟨millis, hread, hmillis⟩
  have hdecode : t.decodeSpan buf = Value.ofMillisOfDay millis := by
    simp only [decodeSpan, htype, hread]
    rfl
  have hunreadable : t.Unreadable buf ↔ Time.Clock.ofMillis? millis.toNat = none := by
    rw [Time.Clock.ofMillis?_eq_none_iff, hmillis]
    simp only [Unreadable, htype]
  rw [hdecode, Value.ofMillisOfDay, Decided, hunreadable]
  cases Time.Clock.ofMillis? millis.toNat with
  | none => exact .inr ⟨rfl, _, rfl⟩
  | some clock => exact .inl ⟨by simp, _, rfl, htype.symm⟩

theorem exists_decodeSpan_date (htype : t.type = .date) (hlength : 2 ≤ buf.length) :
    ∃ day, t.decodeSpan buf = .ok (.date day) := by
  rcases exists_read_uint16 (by omega : 0 + 2 ≤ buf.length) with ⟨days, hread, _⟩
  rcases Time.Date.exists_ofEpochDay? (Nat.le_of_lt_succ days.toNat_lt) with ⟨day, hday, _⟩
  refine ⟨day, ?_⟩
  simp only [decodeSpan, htype, hread]
  change Value.ofDays days = _
  rw [Value.ofDays, hday]

/-- Bytes of any other type always stand for a value. -/
theorem exists_decodeSpan (hlength : t.span.length.toNat ≤ buf.length)
    (hwchar : t.type ≠ .wchar) (hwstring : t.type ≠ .wstring) (htime : t.type ≠ .timeOfDay) :
    ∃ v, t.decodeSpan buf = .ok v ∧ v.type = t.type := by
  have hread : ∀ width ≤ buf.length, buf.readNat 0 width = .ok (buf.numberAt 0 width) := by
    intro width hwidth
    exact readNat_of_le (by omega)
  rw [length_span] at hlength
  cases htype : t.type with
  | wchar => exact absurd htype hwchar
  | wstring => exact absurd htype hwstring
  | timeOfDay => exact absurd htype htime
  | bool | byte | sint | usint =>
      rw [htype] at hlength
      simp only [decodeSpan, htype, Bytes.readBit, FromBytes.read, hread 1 hlength]
      exact ⟨_, rfl, rfl⟩
  | word | int | uint =>
      rw [htype] at hlength
      simp only [decodeSpan, htype, FromBytes.read, hread 2 hlength]
      exact ⟨_, rfl, rfl⟩
  | dword | dint | udint | real | time =>
      rw [htype] at hlength
      simp only [decodeSpan, htype, FromBytes.read, hread 4 hlength]
      exact ⟨_, rfl, rfl⟩
  | lreal =>
      rw [htype] at hlength
      simp only [decodeSpan, htype, FromBytes.read, hread 8 hlength]
      exact ⟨_, rfl, rfl⟩
  | char =>
      rw [htype] at hlength
      have hslice : buf.slice 0 1 = .ok ((buf.drop 0).take 1) := slice_of_le hlength
      simp only [decodeSpan, htype, hslice]
      exact ⟨_, rfl, rfl⟩
  | string =>
      rw [htype] at hlength
      exact ⟨_, decodeSpan_string htype hlength, rfl⟩
  | date =>
      rw [htype] at hlength
      rcases exists_decodeSpan_date htype hlength with ⟨day, hday⟩
      exact ⟨_, hday, rfl⟩

theorem decided_decodeSpan (hlength : t.span.length.toNat ≤ buf.length) :
    t.Decided buf (t.decodeSpan buf) := by
  have hspan := hlength
  rw [length_span] at hspan
  by_cases hwchar : t.type = .wchar
  · rw [hwchar] at hspan
    exact decided_wchar hwchar hspan
  by_cases hwstring : t.type = .wstring
  · rw [hwstring] at hspan
    exact decided_wstring hwstring hspan
  by_cases htime : t.type = .timeOfDay
  · rw [htime] at hspan
    exact decided_timeOfDay htime hspan
  · left
    refine ⟨?_, exists_decodeSpan hlength hwchar hwstring htime⟩
    rw [Unreadable]
    split <;> simp_all

/-! ## The whole buffer -/

theorem wideUnits_take (t : Tag) (buf : Bytes) :
    t.wideUnits (buf.take (4 + 2 * t.capacity)) = t.wideUnits buf := by
  have hactual : numberAt (buf.take (4 + 2 * t.capacity)) 2 2 = buf.numberAt 2 2 :=
    numberAt_take (by omega)
  rw [wideUnits, hactual, take_drop_take (by omega), wideUnits]

/-- Whether bytes can be read is settled by those of the span. -/
theorem unreadable_take (t : Tag) (buf : Bytes) :
    t.Unreadable (buf.take t.span.length.toNat) ↔ t.Unreadable buf := by
  rw [length_span]
  cases htype : t.type with
  | wchar =>
      simp only [Unreadable, htype]
      rw [numberAt_take (by decide)]
  | wstring =>
      simp only [Unreadable, htype]
      rw [wideUnits_take]
  | timeOfDay =>
      simp only [Unreadable, htype]
      rw [numberAt_take (by decide)]
  | _ => simp only [Unreadable, htype]

theorem decided_decode (hlength : t.span.length.toNat ≤ buf.length) :
    t.Decided buf (t.decode buf) := by
  have hspan : t.span.length.toNat ≤ (buf.take t.span.length.toNat).length := by
    rw [List.length_take]
    omega
  have hdecided := decided_decodeSpan hspan
  rw [Decided, unreadable_take] at hdecided
  rw [decode_of_le hlength]
  exact hdecided

theorem exists_decode_date (htype : t.type = .date) (hlength : t.span.length.toNat ≤ buf.length) :
    ∃ day, t.decode buf = .ok (.date day) := by
  have hspan : 2 ≤ (buf.take t.span.length.toNat).length := by
    rw [length_span, htype] at hlength ⊢
    rw [List.length_take]
    exact Nat.le_min.2 ⟨Nat.le_refl 2, hlength⟩
  rw [decode_of_le hlength]
  exact exists_decodeSpan_date htype hspan

/-- Too few bytes for the span are refused as such.  Enough bytes give a value of
the tag's type or, only if they stand for none, a fault of decoding: no read
inside the span is out of range and the address is never at fault.  Every date
is decoded. -/
theorem decode_outcome (t : Tag) (buf : Bytes) :
    (t.decode buf = .error (.bufferTooShort t.span.length.toNat buf.length) ↔
      buf.length < t.span.length.toNat) ∧
    (t.span.length.toNat ≤ buf.length →
      ((∃ fault, t.decode buf = .error (.decode fault)) ↔ t.Unreadable buf) ∧
      (¬ t.Unreadable buf → ∃ v, t.decode buf = .ok v ∧ v.type = t.type) ∧
      (∀ required actual, t.decode buf ≠ .error (.bufferTooShort required actual)) ∧
      (t.type = .date → ∃ day, t.decode buf = .ok (.date day))) ∧
    ∀ e, t.decode buf = .error e → e.isParseError = false := by
  rcases Nat.lt_or_ge buf.length t.span.length.toNat with hshort | hlength
  · rw [decode_of_lt hshort]
    refine ⟨by simp [hshort], fun hlength => absurd hlength (Nat.not_le_of_lt hshort), ?_⟩
    rintro e ⟨⟩
    rfl
  · have hdate : t.type = .date → ∃ day, t.decode buf = .ok (.date day) := by
      intro htype
      exact exists_decode_date htype hlength
    rcases decided_decode hlength with ⟨hreadable, v, hv, htype⟩ | ⟨hunreadable, fault, hfault⟩
    · refine ⟨by simp [hv, hlength], fun _ => ⟨by simp [hv, hreadable], fun _ => ⟨v, hv, htype⟩,
        by simp [hv], hdate⟩, by simp [hv]⟩
    · refine ⟨by simp [hfault, hlength], fun _ => ⟨by simp [hfault, hunreadable],
        fun hreadable => absurd hunreadable hreadable, by simp [hfault], hdate⟩, ?_⟩
      rw [hfault]
      rintro e ⟨⟩
      rfl

def pairOfUnits : Tag := ⟨⟨4, 396, 0, .wstring, some 2⟩, rfl⟩

/-- The units are two halves of a character, behind a length that is too great. -/
def pairedUnits : Bytes := [0, 2, 0xFF, 0xFF, 0xD8, 0x3D, 0xDE, 0x00]

def unpairedUnits : Bytes := [0, 2, 0xFF, 0xFF, 0xD8, 0x3D, 0x00, 0x41]

def lastDay : Tag := ⟨⟨4, 12, 0, .date, none⟩, rfl⟩

theorem decode_units_and_lastDay :
    (∃ v, pairOfUnits.decode pairedUnits = .ok v ∧ v.type = .wstring) ∧
    (∃ fault, pairOfUnits.decode unpairedUnits = .error (.decode fault)) ∧
    (∃ day, lastDay.decode [0xFF, 0xFF] = .ok (.date day)) ∧
    (∃ e, lastDay.decode [0xFF] = .error e ∧ e.isParseError = false) := by
  have hpaired : ¬ pairOfUnits.Unreadable pairedUnits := by
    change ¬ ∃ i, Text.Utf16.Unpaired [0xD83D, 0xDE00] i
    rw [← Text.Utf16.exists_decode_eq_error_iff]
    rintro ⟨u, hu⟩
    cases hu
  have hunpaired : pairOfUnits.Unreadable unpairedUnits := by
    change ∃ i, Text.Utf16.Unpaired [0xD83D, 0x0041] i
    exact ⟨0, 0xD83D, rfl, .inl ⟨rfl, rfl⟩⟩
  have hshort := decode_outcome lastDay [0xFF]
  refine ⟨?_, ?_, ?_, ?_⟩
  · exact ((decode_outcome pairOfUnits pairedUnits).2.1 (by decide)).2.1 hpaired
  · exact ((decode_outcome pairOfUnits unpairedUnits).2.1 (by decide)).1.2 hunpaired
  · exact ((decode_outcome lastDay [0xFF, 0xFF]).2.1 (by decide)).2.2.2 rfl
  · exact ⟨_, hshort.1.2 (by decide), hshort.2.2 _ (hshort.1.2 (by decide))⟩

end DataBlock.Tag
