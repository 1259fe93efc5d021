import DataBlock.Tag.Parser
import DataBlock.Proofs.Results
import DataBlock.Proofs.Text.Pieces
/-!
# The grammar of addresses

An address is `%DB`, a data block, a byte offset, a bit offset if the type is
`BOOL`, the name of a type, and a declared length if it is a string type.
`Spelling` says so of a text and the fields it stands for, and the parser
accepts the trimmed texts that are spelled so and no others.
-/

namespace DataBlock.Tag

open Text (Numeral)

/-! ## Spellings -/

/-- The text of a bit offset, which `BOOL` has and other types have not. -/
inductive BitSpelling : PlcType → List Char → UInt8 → Prop
  | bool {digits : List Char} {bit : UInt8} (hdigits : Numeral digits bit.toNat)
      (hbit : bit.toNat ≤ 7) : BitSpelling .bool ('.' :: digits) bit
  | absent {type : PlcType} (htype : type ≠ .bool) : BitSpelling type [] 0

/-- The text of a declared length, which string types have and others have not. -/
inductive LengthSpelling : PlcType → List Char → Option UInt16 → Prop
  | string {digits : List Char} {length : UInt16} (hdigits : Numeral digits length.toNat)
      (hpos : 1 ≤ length.toNat) (hmost : length.toNat ≤ 254) :
      LengthSpelling .string ('(' :: digits ++ [')']) (some length)
  | wstring {digits : List Char} {length : UInt16} (hdigits : Numeral digits length.toNat)
      (hpos : 1 ≤ length.toNat) (hmost : length.toNat ≤ 16382) :
      LengthSpelling .wstring ('(' :: digits ++ [')']) (some length)
  | absent {type : PlcType} (hstring : type ≠ .string) (hwstring : type ≠ .wstring) :
      LengthSpelling type [] none

inductive Spelling : List Char → Fields → Prop
  | intro {block byte bit length : List Char} {f : Fields}
      (hblock : Numeral block f.block.toNat) (hbyte : Numeral byte f.byteOffset.toNat)
      (hbit : BitSpelling f.type bit f.bitOffset)
      (hlength : LengthSpelling f.type length f.length) :
      Spelling (['%', 'D', 'B'] ++ block ++ ':' :: byte ++ bit ++
        ':' :: f.type.name.toList ++ length) f

def bitText : Option (List Char) → List Char
  | none => []
  | some digits => '.' :: digits

def lengthText : Option (List Char) → List Char
  | none => []
  | some digits => '(' :: digits ++ [')']

def assemble (block byte : List Char) (bit : Option (List Char)) (name : List Char)
    (length : Option (List Char)) : List Char :=
  marker ++ block ++ ':' :: byte ++ bitText bit ++ ':' :: name ++ lengthText length

theorem BitSpelling.exists_bitText {type : PlcType} {text : List Char} {bit : UInt8}
    (h : BitSpelling type text bit) : ∃ digits, text = bitText digits := by
  cases h with
  | bool => exact ⟨some _, rfl⟩
  | absent => exact ⟨none, rfl⟩

theorem BitSpelling.colon_notMem {type : PlcType} {text : List Char} {bit : UInt8}
    (h : BitSpelling type text bit) : ':' ∉ text := by
  cases h with
  | bool hdigits => simpa using hdigits.notMem (by decide)
  | absent => simp

theorem LengthSpelling.exists_lengthText {type : PlcType} {text : List Char}
    {length : Option UInt16} (h : LengthSpelling type text length) :
    ∃ digits, text = lengthText digits := by
  cases h with
  | string => exact ⟨some _, rfl⟩
  | wstring => exact ⟨some _, rfl⟩
  | absent => exact ⟨none, rfl⟩

theorem LengthSpelling.colon_notMem {type : PlcType} {text : List Char}
    {length : Option UInt16} (h : LengthSpelling type text length) : ':' ∉ text := by
  cases h with
  | string hdigits => simpa using hdigits.notMem (by decide)
  | wstring hdigits => simpa using hdigits.notMem (by decide)
  | absent => simp

theorem orFault_eq_ok_iff {α : Type} {fault : Fault} {o : Option α} {a : α} :
    orFault fault o = .ok a ↔ o = some a := by
  cases o with
  | none => simp [orFault]
  | some b => simp [orFault]

/-! ## Names of types -/

theorem name_ne_nil (type : PlcType) : type.name.toList ≠ [] := by
  cases type <;> decide

theorem isUpper_of_mem_name {type : PlcType} {c : Char} (h : c ∈ type.name.toList) :
    c.isUpper = true ∨ c = '_' := by
  have hall : type.name.toList.all (fun c => c.isUpper || c = '_') = true := by
    cases type <;> decide
  have hc := List.all_eq_true.1 hall c h
  simpa only [Bool.or_eq_true, decide_eq_true_eq] using hc

theorem notMem_name {type : PlcType} {c : Char} (hupper : c.isUpper = false) (hc : c ≠ '_') :
    c ∉ type.name.toList := by
  intro hmem
  rcases isUpper_of_mem_name hmem with h | h
  · simp [hupper] at h
  · exact hc h

theorem typeOfName_eq_ok_iff {name : List Char} {type : PlcType} :
    typeOfName name = .ok type ↔ name = type.name.toList := by
  unfold typeOfName
  constructor
  · intro h
    split at h
    · next other hother =>
      have heq : other = type := by simpa using h
      rw [← heq, PlcType.name_of_ofName? hother, String.toList_ofList]
    · simp at h
  · intro h
    rw [h, String.ofList_toList, PlcType.ofName?_name]

/-! ## Splitting a type -/

theorem isBracket_eq_false_of_isUpper {c : Char} (h : c.isUpper = true) :
    isBracket c = false := by
  by_contra hbracket
  have hc : isBracket c = true := by simpa using hbracket
  simp only [isBracket, Bool.or_eq_true, decide_eq_true_eq] at hc
  rcases hc with ((hc | hc) | hc) | hc <;> rw [hc] at h <;> contradiction

theorem checkName_eq_ok_iff {name name' : List Char} {length length' : Option (List Char)} :
    checkName name length = .ok (name', length') ↔
      (name = name' ∧ length = length') ∧ name ≠ [] ∧ ∀ c ∈ name, isBracket c = false := by
  unfold checkName
  by_cases hnil : name = []
  · simp [hnil]
  · by_cases hany : name.any isBracket = true
    · have hnot : ¬ ∀ c ∈ name, isBracket c = false := by
        simpa using hany
      rw [if_neg hnil, if_pos hany]
      simp only [reduceCtorEq, hnot, and_false]
    · have hall : ∀ c ∈ name, isBracket c = false := by
        simpa using hany
      rw [if_neg hnil, if_neg hany]
      constructor
      · intro h
        have heq : name = name' ∧ length = length' := by simpa using h
        exact ⟨heq, hnil, hall⟩
      · intro h
        rw [h.1.1, h.1.2]

theorem splitType_ne_ok {spec inner : List Char} (h : Text.dropLast? ']' spec = some inner)
    (parts : List Char × Option (List Char)) : splitType spec ≠ .ok parts := by
  intro hparts
  rw [splitType] at hparts
  split at hparts
  · split at hparts
    · simp at hparts
    · split at hparts
      · simp at hparts
      · obtain ⟨_, _, hparts⟩ := bind_eq_ok_iff.1 hparts
        obtain ⟨_, _, hparts⟩ := bind_eq_ok_iff.1 hparts
        simp at hparts
  · next hnone =>
    rw [h] at hnone
    simp at hnone

theorem splitType_of_dropLast?_eq_none {spec : List Char} (h : Text.dropLast? ']' spec = none) :
    splitType spec =
      (match Text.dropLast? ')' spec with
      | none => checkName spec none
      | some inner => do
        let (name, length) ← orFault .parenthesisUnbalanced (Text.splitFirst? '(' inner)
        checkName name (some length)) := by
  rw [splitType]
  split
  · next hsome =>
    rw [h] at hsome
    simp at hsome
  · rfl

theorem splitType_append_lengthText {name : List Char} (hne : name ≠ [])
    (hname : ∀ c ∈ name, isBracket c = false) (length : Option (List Char)) :
    splitType (name ++ lengthText length) = .ok (name, length) := by
  have hbracket : ∀ c, isBracket c = true → c ∉ name := by
    intro c hc hmem
    rw [hname c hmem] at hc
    contradiction
  have hcheck : checkName name length = .ok (name, length) :=
    checkName_eq_ok_iff.2 ⟨⟨rfl, rfl⟩, hne, hname⟩
  cases length with
  | none =>
      have hclose : Text.dropLast? ']' name = none :=
        Text.dropLast?_eq_none_of_notMem (hbracket _ (by decide))
      have hparen : Text.dropLast? ')' name = none :=
        Text.dropLast?_eq_none_of_notMem (hbracket _ (by decide))
      rw [lengthText, List.append_nil, splitType_of_dropLast?_eq_none hclose, hparen]
      exact hcheck
  | some digits =>
      have hspec : name ++ lengthText (some digits) = (name ++ '(' :: digits) ++ [')'] := by
        simp [lengthText]
      have hclose : Text.dropLast? ']' ((name ++ '(' :: digits) ++ [')']) = none :=
        Text.dropLast?_concat_of_ne (by decide) _
      have hopen : Text.splitFirst? '(' (name ++ '(' :: digits) = some (name, digits) :=
        Text.splitFirst?_append digits (hbracket _ (by decide))
      rw [hspec, splitType_of_dropLast?_eq_none hclose, Text.dropLast?_concat]
      simp only [hopen]
      exact hcheck

/-- A type is split into a name without brackets and the text of its length;
with an array count it is refused. -/
theorem splitType_eq_ok_iff {spec name : List Char} {length : Option (List Char)} :
    splitType spec = .ok (name, length) ↔
      spec = name ++ lengthText length ∧ name ≠ [] ∧ ∀ c ∈ name, isBracket c = false := by
  constructor
  · intro h
    cases hclose : Text.dropLast? ']' spec with
    | some inner => exact absurd h (splitType_ne_ok hclose _)
    | none =>
        rw [splitType_of_dropLast?_eq_none hclose] at h
        split at h
        · obtain ⟨⟨hspec, hnone⟩, hname⟩ := checkName_eq_ok_iff.1 h
          rw [hspec] at hname ⊢
          rw [← hnone, lengthText, List.append_nil]
          exact ⟨rfl, hname⟩
        · next inner hparen =>
          obtain ⟨⟨head, digits⟩, hopen, h⟩ := bind_eq_ok_iff.1 h
          obtain ⟨⟨hhead, hdigits⟩, hname⟩ := checkName_eq_ok_iff.1 h
          have hinner := (Text.splitFirst?_eq_some (orFault_eq_ok_iff.1 hopen)).1
          have hspec : spec = (head ++ '(' :: digits) ++ [')'] := by
            rw [Text.eq_concat_of_dropLast? hparen, hinner]
          rw [hhead] at hspec hname
          rw [hspec, ← hdigits]
          exact ⟨by simp [lengthText], hname⟩
  · intro h
    rw [h.1]
    exact splitType_append_lengthText h.2.1 h.2.2 length

/-! ## Numbers of an address -/

theorem map_numeralBelow?_eq_some_iff {bound : Nat} {s : List Char} {x : UInt8}
    (hbound : bound ≤ UInt8.size) :
    (Text.numeralBelow? bound s).map UInt8.ofNat = some x ↔
      Numeral s x.toNat ∧ x.toNat < bound := by
  rw [Option.map_eq_some_iff]
  constructor
  · intro ⟨n, hn, hx⟩
    obtain ⟨hnumeral, hlt⟩ := Text.numeralBelow?_eq_some_iff.1 hn
    have hto : x.toNat = n := by
      rw [← hx, UInt8.toNat_ofNat', Nat.mod_eq_of_lt (Nat.lt_of_lt_of_le hlt hbound)]
    rw [hto]
    exact ⟨hnumeral, hlt⟩
  · intro h
    exact ⟨x.toNat, Text.numeralBelow?_eq_some_iff.2 h, UInt8.ofNat_toNat⟩

theorem readBit_eq_ok_iff {type : PlcType} {digits : Option (List Char)} {bit : UInt8} :
    readBit type digits = .ok bit ↔ BitSpelling type (bitText digits) bit := by
  cases digits with
  | none =>
    by_cases htype : type = .bool
    · subst htype
      simp only [readBit, if_true, reduceCtorEq, false_iff]
      intro h
      cases h
      contradiction
    · simp only [readBit, if_neg htype, Except.ok.injEq]
      constructor
      · intro hzero
        rw [← hzero]
        exact .absent htype
      · intro h
        cases h
        rfl
  | some digits =>
    by_cases htype : type = .bool
    · subst htype
      simp only [readBit, if_true, orFault_eq_ok_iff]
      rw [map_numeralBelow?_eq_some_iff (by decide), Nat.lt_succ_iff]
      constructor
      · intro h
        exact .bool h.1 h.2
      · intro h
        cases h with
        | bool hdigits hbit => exact ⟨hdigits, hbit⟩
    · simp only [readBit, if_neg htype, reduceCtorEq, false_iff]
      intro h
      cases h
      contradiction

theorem lengthSpelling_none_iff {type : PlcType} {length : Option UInt16} :
    LengthSpelling type (lengthText none) length ↔ type.maxLength? = none ∧ length = none := by
  constructor
  · intro h
    generalize htext : lengthText none = text at h
    cases h with
    | string => simp [lengthText] at htext
    | wstring => simp [lengthText] at htext
    | absent hstring hwstring =>
      cases type <;> first | contradiction | exact ⟨rfl, rfl⟩
  · intro h
    rw [h.2]
    have hmost := h.1
    apply LengthSpelling.absent
    · intro hstring
      simp [hstring, PlcType.maxLength?] at hmost
    · intro hwstring
      simp [hwstring, PlcType.maxLength?] at hmost

theorem lengthSpelling_some_iff {type : PlcType} {digits : List Char}
    {length : Option UInt16} :
    LengthSpelling type (lengthText (some digits)) length ↔
      ∃ most n, type.maxLength? = some most ∧ length = some n ∧
        Numeral digits n.toNat ∧ 1 ≤ n.toNat ∧ n.toNat ≤ most.toNat := by
  constructor
  · intro h
    generalize htext : lengthText (some digits) = text at h
    cases h with
    | @string other n hdigits hpos hmost =>
      have heq : digits = other := by simpa [lengthText] using htext
      rw [heq]
      exact ⟨254, _, rfl, rfl, hdigits, hpos, hmost⟩
    | @wstring other n hdigits hpos hmost =>
      have heq : digits = other := by simpa [lengthText] using htext
      rw [heq]
      exact ⟨16382, _, rfl, rfl, hdigits, hpos, hmost⟩
    | absent => simp [lengthText] at htext
  · intro h
    rcases h with ⟨most, n, htype, hlength, hdigits, hpos, hle⟩
    rw [hlength]
    cases type <;> simp only [PlcType.maxLength?, Option.some.injEq, reduceCtorEq] at htype
    · subst htype
      exact .string hdigits hpos hle
    · subst htype
      exact .wstring hdigits hpos hle

theorem readLength_eq_ok_iff {type : PlcType} {digits : Option (List Char)}
    {length : Option UInt16} :
    readLength type digits = .ok length ↔ LengthSpelling type (lengthText digits) length := by
  cases digits with
  | none =>
    rw [lengthSpelling_none_iff]
    cases hmost : type.maxLength? <;> simp [readLength, hmost, eq_comm]
  | some digits =>
    rw [lengthSpelling_some_iff]
    cases hmost : type.maxLength? with
    | none => simp [readLength, hmost]
    | some most =>
      have hlt := most.toNat_lt
      simp only [readLength, hmost, orFault_eq_ok_iff, Option.map_eq_some_iff,
        Option.filter_eq_some_iff, decide_eq_true_eq, Text.numeralBelow?_eq_some_iff]
      constructor
      · intro ⟨n, ⟨⟨hdigits, hle⟩, hpos⟩, hlength⟩
        have hto : (UInt16.ofNat n).toNat = n := by
          rw [UInt16.toNat_ofNat', Nat.mod_eq_of_lt (by omega)]
        refine ⟨most, _, rfl, hlength.symm, ?_⟩
        rw [hto]
        exact ⟨hdigits, hpos, by omega⟩
      · intro ⟨other, n, hother, hlength, hdigits, hpos, hle⟩
        have heq : most = other := by simpa using hother
        rw [← heq] at hle
        refine ⟨n.toNat, ⟨⟨hdigits, by omega⟩, hpos⟩, ?_⟩
        rw [UInt16.ofNat_toNat, hlength]

/-! ## Reading an assembled address -/

theorem splitLocation_append {byte : List Char} (h : '.' ∉ byte) (bit : Option (List Char)) :
    splitLocation (byte ++ bitText bit) = (byte, bit) := by
  unfold splitLocation
  cases bit with
  | none => rw [bitText, List.append_nil, Text.splitFirst?_eq_none_iff.2 h]
  | some digits => rw [bitText, Text.splitFirst?_append digits h]

theorem eq_append_of_splitLocation {location byte : List Char} {bit : Option (List Char)}
    (h : splitLocation location = (byte, bit)) : location = byte ++ bitText bit := by
  unfold splitLocation at h
  split at h
  · next hsplit =>
    rw [Prod.mk.injEq] at h
    rw [← h.1, ← h.2]
    exact (Text.splitFirst?_eq_some hsplit).1
  · rw [Prod.mk.injEq] at h
    rw [h.1, ← h.2, bitText, List.append_nil]

/-- Reading an address of numbers in range comes down to its type, its bit offset
and its length. -/
theorem read_eq_of_numerals {block byte : List Char} {m n : Nat} (hblock : Numeral block m)
    (hm : m < UInt16.size) (hbyte : Numeral byte n) (hn : n < UInt32.size)
    {bit : Option (List Char)} (hbit : ':' ∉ bitText bit) {spec : List Char} (hspec : ':' ∉ spec) :
    Fields.read (marker ++ block ++ ':' :: byte ++ bitText bit ++ ':' :: spec) =
      (do
        let (name, length) ← splitType spec
        let type ← typeOfName name
        let bit ← readBit type bit
        let length ← readLength type length
        return ⟨UInt16.ofNat m, UInt32.ofNat n, bit, type, length⟩) := by
  have hbody : marker ++ block ++ ':' :: byte ++ bitText bit ++ ':' :: spec =
      marker ++ (block ++ ':' :: ((byte ++ bitText bit) ++ ':' :: spec)) := by
    simp
  have hfields : (block ++ ':' :: ((byte ++ bitText bit) ++ ':' :: spec)).splitOn ':' =
      [block, byte ++ bitText bit, spec] := by
    apply Text.splitOn_three
    · exact hblock.notMem (by decide)
    · rw [List.mem_append, not_or]
      exact ⟨hbyte.notMem (by decide), hbit⟩
    · exact hspec
  have hlocation : splitLocation (byte ++ bitText bit) = (byte, bit) :=
    splitLocation_append (hbyte.notMem (by decide)) bit
  have hblock' : Text.numeralBelow? UInt16.size block = some m :=
    Text.numeralBelow?_eq_some_iff.2 ⟨hblock, hm⟩
  have hbyte' : Text.numeralBelow? UInt32.size byte = some n :=
    Text.numeralBelow?_eq_some_iff.2 ⟨hbyte, hn⟩
  rw [hbody, Fields.read, Text.dropStart?_append]
  simp only [orFault, bind, Except.bind, hfields, hlocation, hblock', hbyte']

/-- Reading an address of good numbers comes down to its bit offset and its
length. -/
theorem read_assemble {block byte : List Char} {f : Fields}
    (hblock : Numeral block f.block.toNat) (hbyte : Numeral byte f.byteOffset.toNat)
    {bit length : Option (List Char)} (hbit : ':' ∉ bitText bit)
    (hlength : ':' ∉ lengthText length) :
    Fields.read (assemble block byte bit f.type.name.toList length) =
      (do
        let bit ← readBit f.type bit
        let length ← readLength f.type length
        return ⟨f.block, f.byteOffset, bit, f.type, length⟩) := by
  have hbody : assemble block byte bit f.type.name.toList length =
      marker ++ block ++ ':' :: byte ++ bitText bit ++
        ':' :: (f.type.name.toList ++ lengthText length) := by
    simp [assemble]
  have hspec : ':' ∉ f.type.name.toList ++ lengthText length := by
    rw [List.mem_append, not_or]
    exact ⟨notMem_name (by decide) (by decide), hlength⟩
  have hbracket : ∀ c ∈ f.type.name.toList, isBracket c = false := by
    intro c hc
    rcases isUpper_of_mem_name hc with hupper | hunderscore
    · exact isBracket_eq_false_of_isUpper hupper
    · rw [hunderscore]
      decide
  have htype : splitType (f.type.name.toList ++ lengthText length) =
      .ok (f.type.name.toList, length) :=
    splitType_eq_ok_iff.2 ⟨rfl, name_ne_nil _, hbracket⟩
  have hname : typeOfName f.type.name.toList = .ok f.type := typeOfName_eq_ok_iff.2 rfl
  rw [hbody, read_eq_of_numerals hblock f.block.toNat_lt_size hbyte f.byteOffset.toNat_lt_size
    hbit hspec]
  simp only [bind, Except.bind, htype, hname, UInt16.ofNat_toNat, UInt32.ofNat_toNat]

/-- Whatever is read is an address of good numbers, with a bit offset and a
length that can be read. -/
theorem exists_assemble_of_read {s : List Char} {f : Fields} (h : Fields.read s = .ok f) :
    ∃ block byte bit length,
      s = assemble block byte bit f.type.name.toList length ∧
      Numeral block f.block.toNat ∧ Numeral byte f.byteOffset.toNat ∧
      readBit f.type bit = .ok f.bitOffset ∧ readLength f.type length = .ok f.length := by
  obtain ⟨body, hmarker, h⟩ := bind_eq_ok_iff.1 h
  split at h
  · next blockText location spec hfields =>
    obtain ⟨block, hblock, h⟩ := bind_eq_ok_iff.1 h
    rcases hlocation : splitLocation location with ⟨byteText, bitDigits⟩
    rw [hlocation] at h
    obtain ⟨byte, hbyte, h⟩ := bind_eq_ok_iff.1 h
    obtain ⟨⟨name, lengthDigits⟩, hspec, h⟩ := bind_eq_ok_iff.1 h
    obtain ⟨type, htype, h⟩ := bind_eq_ok_iff.1 h
    obtain ⟨bit, hbit, h⟩ := bind_eq_ok_iff.1 h
    obtain ⟨length, hlength, h⟩ := bind_eq_ok_iff.1 h
    have hf : _ = f := Except.ok.inj h
    subst hf
    obtain ⟨hblock, hblockLt⟩ := Text.numeralBelow?_eq_some_iff.1 (orFault_eq_ok_iff.1 hblock)
    obtain ⟨hbyte, hbyteLt⟩ := Text.numeralBelow?_eq_some_iff.1 (orFault_eq_ok_iff.1 hbyte)
    have hspec := (splitType_eq_ok_iff.1 hspec).1
    refine ⟨blockText, byteText, bitDigits, lengthDigits, ?_, ?_, ?_, hbit, hlength⟩
    · rw [Text.eq_append_of_dropStart? (orFault_eq_ok_iff.1 hmarker),
        Text.eq_of_splitOn_three hfields, eq_append_of_splitLocation hlocation, hspec,
        typeOfName_eq_ok_iff.1 htype]
      simp [assemble]
    · rwa [UInt16.toNat_ofNat', Nat.mod_eq_of_lt hblockLt]
    · rwa [UInt32.toNat_ofNat', Nat.mod_eq_of_lt hbyteLt]
  · simp at h

theorem read_eq_ok_iff {s : List Char} {f : Fields} :
    Fields.read s = .ok f ↔ Spelling s f := by
  constructor
  · intro h
    obtain ⟨block, byte, bit, length, hs, hblock, hbyte, hbit, hlength⟩ :=
      exists_assemble_of_read h
    rw [hs]
    exact .intro hblock hbyte (readBit_eq_ok_iff.1 hbit) (readLength_eq_ok_iff.1 hlength)
  · intro ⟨hblock, hbyte, hbit, hlength⟩
    have hbitColon := hbit.colon_notMem
    have hlengthColon := hlength.colon_notMem
    obtain ⟨bit, rfl⟩ := hbit.exists_bitText
    obtain ⟨length, rfl⟩ := hlength.exists_lengthText
    have hread := read_assemble hblock hbyte hbitColon hlengthColon
    rw [readBit_eq_ok_iff.2 hbit, readLength_eq_ok_iff.2 hlength] at hread
    exact hread

/-! ## Faults of fields -/

theorem exists_bitSpelling_iff {type : PlcType} {bit : UInt8} :
    (∃ text, BitSpelling type text bit) ↔ bit.toNat ≤ 7 ∧ (bit = 0 ∨ type = .bool) := by
  constructor
  · intro ⟨text, h⟩
    cases h with
    | bool hdigits hbit => exact ⟨hbit, .inr rfl⟩
    | absent htype => exact ⟨by simp, .inl rfl⟩
  · intro ⟨hbit, htype⟩
    by_cases hbool : type = .bool
    · rw [hbool]
      exact ⟨_, .bool (Text.numeral_toDigits _) hbit⟩
    · have hzero : bit = 0 := htype.resolve_right hbool
      rw [hzero]
      exact ⟨_, .absent hbool⟩

theorem exists_lengthSpelling_iff {type : PlcType} {length : Option UInt16} :
    (∃ text, LengthSpelling type text length) ↔
      (type.maxLength? = none ∧ length = none) ∨
        ∃ most n, type.maxLength? = some most ∧ length = some n ∧
          1 ≤ n.toNat ∧ n.toNat ≤ most.toNat := by
  constructor
  · intro ⟨text, h⟩
    obtain ⟨digits, htext⟩ := h.exists_lengthText
    rw [htext] at h
    cases digits with
    | none => exact .inl (lengthSpelling_none_iff.1 h)
    | some digits =>
      obtain ⟨most, n, hmost, hlength, _, hpos, hle⟩ := lengthSpelling_some_iff.1 h
      exact .inr ⟨most, n, hmost, hlength, hpos, hle⟩
  · intro h
    rcases h with h | ⟨most, n, hmost, hlength, hpos, hle⟩
    · exact ⟨_, lengthSpelling_none_iff.2 h⟩
    · have hdigits := Text.numeral_toDigits n.toNat
      exact ⟨_, lengthSpelling_some_iff.2 ⟨most, n, hmost, hlength, hdigits, hpos, hle⟩⟩

theorem fault?_of_bit {f : Fields} (hrange : f.bitOffset.toNat ≤ 7)
    (htype : f.bitOffset = 0 ∨ f.type = .bool) :
    f.fault? = none ↔ ∃ text, LengthSpelling f.type text f.length := by
  have hfits : ¬ 7 < f.bitOffset := by
    rw [UInt8.lt_iff_toNat_lt]
    simpa using hrange
  have hallowed : ¬ (f.bitOffset ≠ 0 ∧ f.type ≠ .bool) := by
    intro h
    exact htype.elim h.1 h.2
  rw [exists_lengthSpelling_iff, Fields.fault?, if_neg hfits, if_neg hallowed]
  rcases hmost : f.type.maxLength? with _ | most <;> rcases hlength : f.length with _ | n
  · simp
  · simp
  · simp
  · by_cases hzero : n = 0
    · simp [hzero]
    · have hpos : 1 ≤ n.toNat := by
        rw [Nat.one_le_iff_ne_zero]
        intro h
        exact hzero (UInt16.toNat_inj.1 h)
      by_cases hlong : most < n
      · simp [hzero, hlong, UInt16.lt_iff_toNat_lt.1 hlong]
      · have hle : n.toNat ≤ most.toNat := by
          rw [UInt16.lt_iff_toNat_lt] at hlong
          omega
        simp [hzero, hlong, hpos, hle]

/-- Fields without fault are those whose parts can be spelled. -/
theorem fault?_eq_none_iff {f : Fields} :
    f.fault? = none ↔
      (∃ text, BitSpelling f.type text f.bitOffset) ∧
        ∃ text, LengthSpelling f.type text f.length := by
  rw [exists_bitSpelling_iff]
  by_cases hbit : f.bitOffset.toNat ≤ 7 ∧ (f.bitOffset = 0 ∨ f.type = .bool)
  · rw [fault?_of_bit hbit.1 hbit.2]
    exact ⟨fun h => ⟨hbit, h⟩, fun h => h.2⟩
  · have hfault : f.fault? ≠ none := by
      rw [Fields.fault?]
      split
      · simp
      · next hfits =>
        split
        · simp
        · next hallowed =>
          have hrange : f.bitOffset.toNat ≤ 7 := by
            rw [UInt8.lt_iff_toNat_lt] at hfits
            simpa using hfits
          have htype : f.bitOffset = 0 ∨ f.type = .bool := by
            by_contra h
            exact hallowed (not_or.1 h)
          exact absurd ⟨hrange, htype⟩ hbit
    exact ⟨fun h => absurd h hfault, fun h => absurd h.1 hbit⟩

theorem Spelling.fault?_eq_none {s : List Char} {f : Fields} (h : Spelling s f) :
    f.fault? = none := by
  cases h with
  | intro _ _ hbit hlength => exact fault?_eq_none_iff.2 ⟨⟨_, hbit⟩, ⟨_, hlength⟩⟩

/-! ## The parser -/

theorem make_eq_ok_iff {f : Fields} {t : Tag} : make f = .ok t ↔ t.toFields = f := by
  rw [← ofFields_eq_ok_iff, make]
  cases ofFields f <;> simp [Except.mapError]

theorem parse_eq_ok_iff {s : String} {t : Tag} :
    parse s = .ok t ↔ Fields.read (Text.trim s.toList) = .ok t.toFields := by
  rw [parse, bind_eq_ok_iff]
  rcases hread : Fields.read (Text.trim s.toList) with e | f
  · simp [Except.mapError]
  · simp only [Except.mapError, Except.ok.injEq, exists_eq_left', make_eq_ok_iff]
    exact eq_comm

/-- The parser accepts a text as the tag of fields exactly if the text, without
the blanks around it, is a spelling of the fields. -/
theorem parse_eq_ok_iff_spelling (s : String) (f : Fields) :
    (∃ t, parse s = .ok t ∧ t.toFields = f) ↔ Spelling (Text.trim s.toList) f := by
  rw [← read_eq_ok_iff]
  constructor
  · intro ⟨t, ht, hf⟩
    rw [← hf]
    exact parse_eq_ok_iff.1 ht
  · intro h
    have hfault := (read_eq_ok_iff.1 h).fault?_eq_none
    exact ⟨⟨f, hfault⟩, parse_eq_ok_iff.2 h, rfl⟩

end DataBlock.Tag
