import DataBlock.Proofs.Tag.Grammar
/-!
# Addresses of fields, written and read back

Fields are checked in two places: as fields, when a tag is made of them, and as
text, when their address is read.  Both checks agree, and a tag is the only one
with its address.
-/

namespace DataBlock.Tag

theorem make_eq_error {f : Fields} {fault : Fault} (h : f.fault? = some fault) :
    make f = .error (.malformedAddress f.address fault) := by
  rw [make, ofFields_eq_error_iff.2 h]
  rfl

/-! ## The written text -/

/-- The bit offset as it is written: where it should be, and where it should
not be but is. -/
def writtenBit (f : Fields) : Option (List Char) :=
  if f.type = .bool || f.bitOffset ≠ 0 then some (Nat.toDigits 10 f.bitOffset.toNat) else none

def writtenLength (f : Fields) : Option (List Char) :=
  f.length.map fun length => Nat.toDigits 10 length.toNat

theorem toList_address (f : Fields) :
    f.address.toList =
      assemble (Nat.toDigits 10 f.block.toNat) (Nat.toDigits 10 f.byteOffset.toNat)
        (writtenBit f) f.type.name.toList (writtenLength f) := by
  rw [Fields.address, String.toList_ofList, Fields.write, assemble, writtenBit, writtenLength]
  cases hbit : (f.type = .bool || f.bitOffset ≠ 0 : Bool) <;> cases f.length <;>
    simp [bitText, lengthText]

theorem colon_notMem_writtenBit (f : Fields) : ':' ∉ bitText (writtenBit f) := by
  rw [writtenBit]
  split
  · simpa [bitText] using (Text.numeral_toDigits f.bitOffset.toNat).notMem (by decide)
  · simp [bitText]

theorem colon_notMem_writtenLength (f : Fields) : ':' ∉ lengthText (writtenLength f) := by
  rw [writtenLength]
  cases f.length with
  | none => simp [lengthText]
  | some n => simpa [lengthText] using (Text.numeral_toDigits n.toNat).notMem (by decide)

theorem read_address (f : Fields) :
    Fields.read f.address.toList =
      (do
        let bit ← readBit f.type (writtenBit f)
        let length ← readLength f.type (writtenLength f)
        return ⟨f.block, f.byteOffset, bit, f.type, length⟩) := by
  rw [toList_address]
  exact read_assemble (Text.numeral_toDigits _) (Text.numeral_toDigits _)
    (colon_notMem_writtenBit f) (colon_notMem_writtenLength f)

/-! ## Blanks -/

theorem isBlank_eq_false_of_isUpper {c : Char} (h : c.isUpper = true) :
    Text.isBlank c = false := by
  change decide (c.val ≥ 'A'.val ∧ c.val ≤ 'Z'.val) = true at h
  have hrange : 65 ≤ c.toNat ∧ c.toNat ≤ 90 := by
    simpa [UInt32.le_iff_toNat_le] using h
  simp only [Text.isBlank, Text.blankRanges, List.any_cons, List.any_nil, Bool.or_false,
    Bool.or_eq_false_iff, Bool.and_eq_false_iff, decide_eq_false_iff_not]
  omega

theorem isBlank_eq_false_of_mem_name {c : Char} {type : PlcType}
    (h : c ∈ type.name.toList) : Text.isBlank c = false := by
  rcases isUpper_of_mem_name h with hupper | rfl
  · exact isBlank_eq_false_of_isUpper hupper
  · decide

theorem isBlank_eq_false_of_mem_bitText {c : Char} {f : Fields}
    (h : c ∈ bitText (writtenBit f)) : Text.isBlank c = false := by
  rw [writtenBit] at h
  split at h
  · rw [bitText, List.mem_cons] at h
    rcases h with rfl | hmem
    · decide
    · exact (Text.numeral_toDigits _).isBlank_eq_false c hmem
  · simp [bitText] at h

theorem isBlank_eq_false_of_mem_lengthText {c : Char} {f : Fields}
    (h : c ∈ lengthText (writtenLength f)) : Text.isBlank c = false := by
  rw [writtenLength] at h
  cases hlength : f.length with
  | none => simp [hlength, lengthText] at h
  | some n =>
    rw [hlength, Option.map_some, lengthText, List.cons_append, List.mem_cons, List.mem_append,
      List.mem_singleton] at h
    rcases h with rfl | hmem | rfl
    · decide
    · exact (Text.numeral_toDigits _).isBlank_eq_false c hmem
    · decide

theorem trim_address (f : Fields) : Text.trim f.address.toList = f.address.toList := by
  apply Text.trim_eq_self
  intro c hc
  rw [toList_address] at hc
  simp only [assemble, marker, List.mem_append, List.mem_cons, List.not_mem_nil, or_false] at hc
  rcases hc with ((((((rfl | rfl | rfl) | hblock) | (rfl | hbyte)) | hbit) | (rfl | hname)) |
    hlength)
  · decide
  · decide
  · decide
  · exact (Text.numeral_toDigits _).isBlank_eq_false c hblock
  · decide
  · exact (Text.numeral_toDigits _).isBlank_eq_false c hbyte
  · exact isBlank_eq_false_of_mem_bitText hbit
  · decide
  · exact isBlank_eq_false_of_mem_name hname
  · exact isBlank_eq_false_of_mem_lengthText hlength

/-! ## The parts of a written text -/

/-- A written bit offset can be read as no other. -/
theorem bitSpelling_written_iff {f : Fields} {bit : UInt8} :
    BitSpelling f.type (bitText (writtenBit f)) bit ↔
      bit = f.bitOffset ∧ ∃ text, BitSpelling f.type text f.bitOffset := by
  constructor
  · intro h
    suffices heq : bit = f.bitOffset by
      rw [heq] at h
      exact ⟨heq, _, h⟩
    rcases hwritten : writtenBit f with _ | digits
    · have hzero : f.bitOffset = 0 := by
        by_contra hne
        simp [writtenBit, hne] at hwritten
      rw [hwritten, bitText] at h
      generalize f.type = type at h
      cases h
      exact hzero.symm
    · have hdigits : digits = Nat.toDigits 10 f.bitOffset.toNat := by
        rw [writtenBit] at hwritten
        split at hwritten
        · exact (Option.some.inj hwritten).symm
        · simp at hwritten
      rw [hwritten, bitText, hdigits] at h
      generalize f.type = type at h
      cases h with
      | bool hbit =>
        exact UInt8.toNat_inj.1 (hbit.unique (Text.numeral_toDigits _))
  · intro h
    rcases h with ⟨heq, h⟩
    rw [heq]
    obtain ⟨hrange, htype⟩ := exists_bitSpelling_iff.1 h
    by_cases hbool : f.type = .bool
    · rw [writtenBit, if_pos (by simp [hbool]), hbool]
      exact .bool (Text.numeral_toDigits _) hrange
    · have hzero : f.bitOffset = 0 := htype.resolve_right hbool
      rw [writtenBit, if_neg (by simp [hbool, hzero]), hzero]
      exact .absent hbool

theorem lengthSpelling_written_iff {f : Fields} {length : Option UInt16} :
    LengthSpelling f.type (lengthText (writtenLength f)) length ↔
      length = f.length ∧ ∃ text, LengthSpelling f.type text f.length := by
  rw [exists_lengthSpelling_iff]
  rcases hlength : f.length with _ | n
  · rw [writtenLength, hlength, Option.map_none, lengthSpelling_none_iff]
    constructor
    · intro ⟨hmost, hnone⟩
      exact ⟨hnone, .inl ⟨hmost, rfl⟩⟩
    · intro ⟨hnone, h⟩
      rcases h with ⟨hmost, _⟩ | ⟨_, _, _, hsome, _⟩
      · exact ⟨hmost, hnone⟩
      · simp at hsome
  · rw [writtenLength, hlength, Option.map_some, lengthSpelling_some_iff]
    constructor
    · intro ⟨most, m, hmost, hsome, hdigits, hpos, hle⟩
      have hm : m.toNat = n.toNat := hdigits.unique (Text.numeral_toDigits _)
      rw [UInt16.toNat_inj] at hm
      rw [hm] at hsome hpos hle
      exact ⟨hsome, .inr ⟨most, n, hmost, rfl, hpos, hle⟩⟩
    · intro ⟨hsome, h⟩
      rcases h with ⟨_, hnone⟩ | ⟨most, m, hmost, hm, hpos, hle⟩
      · simp at hnone
      · rw [← Option.some.inj hm] at hpos hle
        exact ⟨most, n, hmost, hsome, Text.numeral_toDigits _, hpos, hle⟩

theorem malformed_of_readBit {type : PlcType} {digits : Option (List Char)} {e : Refusal}
    (h : readBit type digits = .error e) : ∃ fault, e = .malformed fault := by
  unfold readBit orFault at h
  split at h
  · split at h
    · split at h
      · simp at h
      · exact ⟨_, (Except.error.inj h).symm⟩
    · exact ⟨_, (Except.error.inj h).symm⟩
  · split at h
    · exact ⟨_, (Except.error.inj h).symm⟩
    · simp at h

theorem malformed_of_readLength {type : PlcType} {digits : Option (List Char)} {e : Refusal}
    (h : readLength type digits = .error e) : ∃ fault, e = .malformed fault := by
  unfold readLength orFault at h
  split at h
  · split at h
    · simp at h
    · exact ⟨_, (Except.error.inj h).symm⟩
  · exact ⟨_, (Except.error.inj h).symm⟩
  · exact ⟨_, (Except.error.inj h).symm⟩
  · simp at h

/-! ## Reading back -/

theorem read_address_of_fault?_eq_none {f : Fields} (h : f.fault? = none) :
    Fields.read f.address.toList = .ok f := by
  obtain ⟨hbit, hlength⟩ := fault?_eq_none_iff.1 h
  rw [read_address, readBit_eq_ok_iff.2 (bitSpelling_written_iff.2 ⟨rfl, hbit⟩),
    readLength_eq_ok_iff.2 (lengthSpelling_written_iff.2 ⟨rfl, hlength⟩)]
  rfl

theorem read_address_of_fault?_ne_none {f : Fields} (h : f.fault? ≠ none) :
    ∃ fault, Fields.read f.address.toList = .error (.malformed fault) := by
  rw [read_address]
  rcases hbit : readBit f.type (writtenBit f) with e | bit
  · obtain ⟨fault, rfl⟩ := malformed_of_readBit hbit
    exact ⟨fault, rfl⟩
  · rcases hlength : readLength f.type (writtenLength f) with e | length
    · obtain ⟨fault, rfl⟩ := malformed_of_readLength hlength
      exact ⟨fault, rfl⟩
    · have hbit := bitSpelling_written_iff.1 (readBit_eq_ok_iff.1 hbit)
      have hlength := lengthSpelling_written_iff.1 (readLength_eq_ok_iff.1 hlength)
      exact absurd (fault?_eq_none_iff.2 ⟨hbit.2, hlength.2⟩) h

theorem parse_address_of_fault?_eq_none {f : Fields} (h : f.fault? = none) :
    parse f.address = .ok ⟨f, h⟩ := by
  rw [parse_eq_ok_iff, trim_address]
  exact read_address_of_fault?_eq_none h

theorem parse_address_of_fault?_ne_none {f : Fields} (h : f.fault? ≠ none) :
    ∃ fault, parse f.address = .error (.malformedAddress f.address fault) := by
  obtain ⟨fault, hread⟩ := read_address_of_fault?_ne_none h
  refine ⟨fault, ?_⟩
  rw [parse, trim_address, hread]
  simp [Except.mapError, Refusal.toError, bind, Except.bind]

theorem parse_address (t : Tag) : parse t.address = .ok t := by
  rw [address_eq]
  exact parse_address_of_fault?_eq_none t.fault?_eq_none

theorem address_injective {t u : Tag} (h : t.address = u.address) : t = u := by
  have ht := parse_address t
  rw [h, parse_address u] at ht
  exact (Except.ok.inj ht).symm

theorem make_iff_parse_address (f : Fields) (t : Tag) :
    make f = .ok t ↔ parse f.address = .ok t := by
  rcases hfault : f.fault? with _ | fault
  · have hmake : make f = .ok ⟨f, hfault⟩ := make_eq_ok_iff.2 rfl
    rw [hmake, parse_address_of_fault?_eq_none hfault]
  · have hne : f.fault? ≠ none := by simp [hfault]
    obtain ⟨other, hparse⟩ := parse_address_of_fault?_ne_none hne
    rw [make_eq_error hfault, hparse]
    simp

theorem fault?_of_make_eq_error {f : Fields} {e : CodecError} (h : make f = .error e) :
    ∃ fault, f.fault? = some fault ∧ e = .malformedAddress f.address fault := by
  rcases hfault : f.fault? with _ | fault
  · have hmake : make f = .ok ⟨f, hfault⟩ := make_eq_ok_iff.2 rfl
    rw [hmake] at h
    simp at h
  · rw [make_eq_error hfault] at h
    exact ⟨fault, rfl, (Except.error.inj h).symm⟩

/-- Making a tag of fields and reading the address of the fields give the same
tag, whose own address that is.  Where the fields are refused the address is
refused too, and both errors show the address.  So a tag is read back from its
address, and no other tag has it. -/
theorem make_eq_ok_iff_parse_address (f : Fields) :
    (∀ t, make f = .ok t ↔ parse f.address = .ok t) ∧
    (∀ t, make f = .ok t → t.address = f.address) ∧
    (∀ e, make f = .error e →
      (∃ fault, e = .malformedAddress f.address fault) ∧
        ∃ fault, parse f.address = .error (.malformedAddress f.address fault)) ∧
    (∀ t : Tag, parse t.address = .ok t) ∧
    ∀ t u : Tag, t.address = u.address → t = u := by
  refine ⟨make_iff_parse_address f, ?_, ?_, parse_address, ?_⟩
  · intro t ht
    rw [address_eq, make_eq_ok_iff.1 ht]
  · intro e he
    obtain ⟨fault, hfault, hshown⟩ := fault?_of_make_eq_error he
    have hne : f.fault? ≠ none := by simp [hfault]
    exact ⟨⟨fault, hshown⟩, parse_address_of_fault?_ne_none hne⟩
  · intro t u h
    exact address_injective h

/-- A text of ten characters is a tag; an integer with a bit offset is none. -/
theorem parse_address_text_and_bit :
    (∃ t, make ⟨4, 140, 0, .string, some 10⟩ = .ok t ∧
      parse "%DB4:140:STRING(10)" = .ok t ∧ t.address = "%DB4:140:STRING(10)") ∧
    ∃ e, make ⟨4, 0, 1, .int, none⟩ = .error e ∧
      (∃ fault, e = .malformedAddress "%DB4:0.1:INT" fault) ∧
      ∃ fault, parse "%DB4:0.1:INT" = .error (.malformedAddress "%DB4:0.1:INT" fault) := by
  have htext : Fields.address ⟨4, 140, 0, .string, some 10⟩ = "%DB4:140:STRING(10)" := by
    decide
  have hbit : Fields.address ⟨4, 0, 1, .int, none⟩ = "%DB4:0.1:INT" := by
    decide
  have hstring := make_eq_ok_iff_parse_address ⟨4, 140, 0, .string, some 10⟩
  have hint := make_eq_ok_iff_parse_address ⟨4, 0, 1, .int, none⟩
  rw [htext] at hstring
  rw [hbit] at hint
  constructor
  · exact ⟨⟨_, by decide⟩, rfl, (hstring.1 _).1 rfl, hstring.2.1 _ rfl⟩
  · exact ⟨_, rfl, hint.2.2.1 _ rfl⟩

end DataBlock.Tag
