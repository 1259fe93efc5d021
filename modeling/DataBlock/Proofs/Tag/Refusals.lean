import DataBlock.Proofs.Tag.RoundTrip
import Mathlib.Data.List.Induction
/-!
# Why an address is refused

The field of the type, behind a data block and a byte offset in range, is a
name, a text in parentheses if there is one, and any number of array counts in
brackets.  Only a field of this form can be refused for its name, or for being
an array.  Every other fault, of this field or any other, makes the address
malformed.
-/

namespace DataBlock.Tag

open Text (Numeral)

def countText (count : List Char) : List Char := '[' :: count ++ [']']

/-- A number of elements that 32 bits hold. -/
def IsCount (count : List Char) : Prop := ∃ n, Numeral count n ∧ n < UInt32.size

/-- The text of a type in its parts: a name without brackets, any text in
parentheses, and array counts. -/
structure Lexed (spec name : List Char) (length : Option (List Char))
    (counts : List (List Char)) : Prop where
  text : spec = name ++ lengthText length ++ counts.flatMap countText
  name_ne_nil : name ≠ []
  plain : ∀ c ∈ name, isBracket c = false
  counted : ∀ count ∈ counts, IsCount count

/-- The field of the type in an address of which data block and byte offset are
in range.  Whatever stands for a bit offset may be any text. -/
inductive TypeField : List Char → List Char → Prop
  | intro {block byte : List Char} {bit : Option (List Char)} {spec : List Char} {m n : Nat}
      (hblock : Numeral block m) (hm : m < UInt16.size)
      (hbyte : Numeral byte n) (hn : n < UInt32.size)
      (hbit : ':' ∉ bitText bit) (hspec : ':' ∉ spec) :
      TypeField (['%', 'D', 'B'] ++ block ++ ':' :: byte ++ bitText bit ++ ':' :: spec) spec

/-- The refusals that name a type.  The name is looked up before the array
counts are refused, and an array is named up to its first count. -/
inductive TypeRefused (input : List Char) : Refusal → Prop
  | unknown {spec name : List Char} {length : Option (List Char)} {counts : List (List Char)}
      (hfield : TypeField input spec) (hlexed : Lexed spec name length counts)
      (hname : ∀ type : PlcType, name ≠ type.name.toList) :
      TypeRefused input (.unknownType name)
  | array {spec : List Char} {type : PlcType} {length : Option (List Char)}
      {count : List Char} {counts : List (List Char)}
      (hfield : TypeField input spec)
      (hlexed : Lexed spec type.name.toList length (count :: counts)) :
      TypeRefused input
        (.unsupportedType (type.name.toList ++ lengthText length ++ countText count))

/-! ## Splitting a type with array counts -/

/-- Splitting a text begins with splitting what stands before its last array
count. -/
def Defers (spec head : List Char) : Prop :=
  ∃ count, spec = head ++ countText count ∧ IsCount count

theorem Defers.count_lt {spec head : List Char} (h : Defers spec head) :
    head.count '[' < spec.count '[' := by
  obtain ⟨count, rfl, -⟩ := h
  rw [List.count_append, countText, List.cons_append, List.count_cons_self]
  omega

/-- One split leads to at most as many others as there are opening brackets. -/
theorem length_le_of_defers {spec : List Char} {heads : List (List Char)}
    (h : List.IsChain Defers (spec :: heads)) : heads.length ≤ spec.count '[' := by
  induction heads generalizing spec with
  | nil => exact Nat.zero_le _
  | cons head heads ih =>
      obtain ⟨hdefers, hrest⟩ := List.isChain_cons_cons.1 h
      have hlt := hdefers.count_lt
      have hle := ih hrest
      rw [List.length_cons]
      omega

theorem splitType_append_countText {count : List Char} (h : IsCount count) (head : List Char) :
    splitType (head ++ countText count) = (do
      let (name, _) ← splitType head
      let _ ← typeOfName name
      .error (.unsupportedType (head ++ countText count))) := by
  obtain ⟨n, hnumeral, hn⟩ := h
  have hclose : Text.dropLast? ']' (head ++ countText count) = some (head ++ '[' :: count) := by
    have htext : head ++ countText count = (head ++ '[' :: count) ++ [']'] := by
      simp [countText]
    rw [htext, Text.dropLast?_concat]
  have hopen : Text.splitLast? '[' (head ++ '[' :: count) = some (head, count) :=
    Text.splitLast?_append head (hnumeral.notMem (by decide))
  have hcount : Text.numeralBelow? UInt32.size count = some n :=
    Text.numeralBelow?_eq_some_iff.2 ⟨hnumeral, hn⟩
  rw [splitType]
  split
  · next inner hinner =>
    obtain rfl : head ++ '[' :: count = inner := Option.some.inj (hclose.symm.trans hinner)
    split
    · next hnone => simp [hopen] at hnone
    · next first last hlast =>
      obtain ⟨rfl, rfl⟩ : head = first ∧ count = last := by simpa [hopen] using hlast
      rw [hcount]
      rfl
  · next hnone => simp [hclose] at hnone

theorem checkName_outcome (name : List Char) (length : Option (List Char)) :
    checkName name length = .ok (name, length) ∨
      ∃ fault, checkName name length = .error (.malformed fault) := by
  unfold checkName
  split
  · exact .inr ⟨_, rfl⟩
  · split
    · exact .inr ⟨_, rfl⟩
    · exact .inl rfl

theorem splitType_of_not_defers {spec : List Char} (h : ∀ head, ¬ Defers spec head) :
    (∃ parts, splitType spec = .ok parts) ∨
      ∃ fault, splitType spec = .error (.malformed fault) := by
  rcases hclose : Text.dropLast? ']' spec with _ | inner
  · rw [splitType_of_dropLast?_eq_none hclose]
    split
    · rcases checkName_outcome spec none with hok | hfault
      · exact .inl ⟨_, hok⟩
      · exact .inr hfault
    · next inner _ =>
      rcases Text.splitFirst? '(' inner with _ | ⟨name, length⟩
      · exact .inr ⟨_, rfl⟩
      · rcases checkName_outcome name (some length) with hok | hfault
        · exact .inl ⟨_, hok⟩
        · exact .inr hfault
  · right
    rw [splitType]
    split
    · next inner hinner =>
      split
      · exact ⟨_, rfl⟩
      · next head count hopen =>
        split
        · exact ⟨_, rfl⟩
        · next hcount =>
          obtain ⟨n, hn⟩ : ∃ n, Text.numeralBelow? UInt32.size count = some n := by
            rwa [Option.isNone_iff_eq_none, ← ne_eq, Option.ne_none_iff_exists'] at hcount
          have hspec : spec = head ++ countText count := by
            rw [Text.eq_concat_of_dropLast? hinner, (Text.splitLast?_eq_some hopen).1]
            simp [countText]
          exact absurd ⟨count, hspec, n, Text.numeralBelow?_eq_some_iff.1 hn⟩ (h head)
    · next hnone => simp [hclose] at hnone

theorem Lexed.concat {spec name count : List Char} {length : Option (List Char)}
    {counts : List (List Char)} (h : Lexed spec name length counts) (hcount : IsCount count) :
    Lexed (spec ++ countText count) name length (counts ++ [count]) where
  text := by
    rw [h.text, List.flatMap_append, List.append_assoc, List.append_assoc, List.append_assoc]
    simp
  name_ne_nil := h.name_ne_nil
  plain := h.plain
  counted := by
    intro other hother
    rcases List.mem_append.1 hother with hmem | hmem
    · exact h.counted other hmem
    · rw [List.mem_singleton.1 hmem]
      exact hcount

/-- A text that is no type in its parts is malformed. -/
theorem exists_lexed_or_malformed (spec : List Char) :
    (∃ name length counts, Lexed spec name length counts) ∨
      ∃ fault, splitType spec = .error (.malformed fault) := by
  by_cases hdefers : ∃ head, Defers spec head
  · obtain ⟨head, hhead⟩ := hdefers
    have hlt := hhead.count_lt
    obtain ⟨count, hspec, hcount⟩ := hhead
    rcases exists_lexed_or_malformed head with ⟨name, length, counts, hlexed⟩ | ⟨fault, hfault⟩
    · left
      rw [hspec]
      exact ⟨name, length, counts ++ [count], hlexed.concat hcount⟩
    · right
      refine ⟨fault, ?_⟩
      rw [hspec, splitType_append_countText hcount, hfault]
      rfl
  · rcases splitType_of_not_defers (not_exists.1 hdefers) with ⟨⟨name, length⟩, hok⟩ | hfault
    · obtain ⟨htext, hne, hplain⟩ := splitType_eq_ok_iff.1 hok
      exact .inl ⟨name, length, [], by simpa using htext, hne, hplain, by simp⟩
    · exact .inr hfault
termination_by spec.count '['

/-- What the parts of a type give: with array counts a refusal, once the name is
known, that shows the text up to the first one. -/
def ofParts (name : List Char) (length : Option (List Char)) :
    List (List Char) → Except Refusal (List Char × Option (List Char))
  | [] => .ok (name, length)
  | count :: _ => do
    let _ ← typeOfName name
    .error (.unsupportedType (name ++ lengthText length ++ countText count))

theorem Lexed.splitType_eq {spec name : List Char} {length : Option (List Char)}
    {counts : List (List Char)} (h : Lexed spec name length counts) :
    splitType spec = ofParts name length counts := by
  -- the last count is split off first
  induction counts using List.reverseRecOn generalizing spec with
  | nil =>
      have htext := h.text
      rw [List.flatMap_nil, List.append_nil] at htext
      exact splitType_eq_ok_iff.2 ⟨htext, h.name_ne_nil, h.plain⟩
  | append_singleton counts count ih =>
      have hspec : spec =
          (name ++ lengthText length ++ counts.flatMap countText) ++ countText count := by
        rw [h.text]
        simp
      have hhead : Lexed (name ++ lengthText length ++ counts.flatMap countText) name length
          counts :=
        ⟨rfl, h.name_ne_nil, h.plain, fun other hmem => h.counted other (by simp [hmem])⟩
      rw [hspec, splitType_append_countText (h.counted count (by simp)), ih hhead]
      cases counts with
      | nil =>
          rw [List.flatMap_nil, List.append_nil]
          rfl
      | cons first counts =>
          rw [List.cons_append, ofParts, ofParts]
          rcases typeOfName name with e | type
          · rfl
          · rfl

/-! ## Reading the fields of an address -/

theorem typeOfName_eq_error {name : List Char} (h : ∀ type : PlcType, name ≠ type.name.toList) :
    typeOfName name = .error (.unknownType name) := by
  unfold typeOfName
  split
  · next type htype =>
    have hok : typeOfName name = .ok type := by rw [typeOfName, htype]
    exact absurd (typeOfName_eq_ok_iff.1 hok) (h type)
  · rfl

/-- Reading an address comes down to its type, its bit offset and its length. -/
theorem TypeField.exists_read_eq {input spec : List Char} (h : TypeField input spec) :
    ∃ block byteOffset bit, Fields.read input = (do
      let (name, length) ← splitType spec
      let type ← typeOfName name
      let bitOffset ← readBit type bit
      let length ← readLength type length
      return ⟨block, byteOffset, bitOffset, type, length⟩) := by
  obtain ⟨hblock, hm, hbyte, hn, hbit, hspec⟩ := h
  exact ⟨_, _, _, read_eq_of_numerals hblock hm hbyte hn hbit hspec⟩

theorem exists_typeField_or_malformed (input : List Char) :
    (∃ spec, TypeField input spec) ∨ ∃ fault, Fields.read input = .error (.malformed fault) := by
  rw [Fields.read]
  rcases hmarker : Text.dropStart? marker input with _ | body
  · exact .inr ⟨_, rfl⟩
  · simp only [orFault, bind, Except.bind]
    split
    · next blockText location spec hfields =>
      rcases hblock : Text.numeralBelow? UInt16.size blockText with _ | block
      · exact .inr ⟨_, rfl⟩
      · rcases hlocation : splitLocation location with ⟨byteText, bit⟩
        rcases hbyte : Text.numeralBelow? UInt32.size byteText with _ | byte
        · exact .inr ⟨_, rfl⟩
        · left
          obtain ⟨hblock, hm⟩ := Text.numeralBelow?_eq_some_iff.1 hblock
          obtain ⟨hbyte, hn⟩ := Text.numeralBelow?_eq_some_iff.1 hbyte
          have hlocation := eq_append_of_splitLocation hlocation
          have hcolon : ∀ field ∈ [blockText, location, spec], ':' ∉ field := by
            rw [← hfields]
            exact fun field hfield => Text.notMem_of_mem_splitOn hfield
          have hbit : ':' ∉ bitText bit := by
            intro hmem
            apply hcolon location (by simp)
            rw [hlocation]
            exact List.mem_append_right _ hmem
          have hinput : input =
              ['%', 'D', 'B'] ++ blockText ++ ':' :: byteText ++ bitText bit ++ ':' :: spec := by
            rw [Text.eq_append_of_dropStart? hmarker, Text.eq_of_splitOn_three hfields, hlocation]
            simp [marker]
          rw [hinput]
          exact ⟨spec, .intro hblock hm hbyte hn hbit (hcolon spec (by simp))⟩
    · exact .inr ⟨_, rfl⟩

theorem TypeRefused.read_eq {input : List Char} {refusal : Refusal}
    (h : TypeRefused input refusal) : Fields.read input = .error refusal := by
  cases h with
  | @unknown spec name length counts hfield hlexed hname =>
      obtain ⟨_, _, _, hread⟩ := hfield.exists_read_eq
      have hunknown := typeOfName_eq_error hname
      rw [hread, hlexed.splitType_eq]
      cases counts with
      | nil => simp only [ofParts, bind, Except.bind, hunknown]
      | cons count counts => simp only [ofParts, bind, Except.bind, hunknown]
  | @array spec type length count counts hfield hlexed =>
      obtain ⟨_, _, _, hread⟩ := hfield.exists_read_eq
      have hknown : typeOfName type.name.toList = .ok type := typeOfName_eq_ok_iff.2 rfl
      rw [hread, hlexed.splitType_eq]
      simp only [ofParts, bind, Except.bind, hknown]

/-- A type in its parts is known, or refused for its name. -/
theorem name_known_or_refused {input spec name : List Char} {length : Option (List Char)}
    {counts : List (List Char)} (hfield : TypeField input spec)
    (hlexed : Lexed spec name length counts) :
    (∃ type : PlcType, name = type.name.toList) ∨ TypeRefused input (.unknownType name) := by
  by_cases hname : ∃ type : PlcType, name = type.name.toList
  · exact .inl hname
  · exact .inr (.unknown hfield hlexed (not_exists.1 hname))

/-- A refusal that names no type is for a malformed address. -/
theorem typeRefused_or_malformed {input : List Char} {refusal : Refusal}
    (h : Fields.read input = .error refusal) :
    TypeRefused input refusal ∨ ∃ fault, refusal = .malformed fault := by
  have hrefused : ∀ other, TypeRefused input other → TypeRefused input refusal := by
    intro other hother
    obtain rfl : other = refusal := Except.error.inj (hother.read_eq.symm.trans h)
    exact hother
  rcases exists_typeField_or_malformed input with ⟨spec, hfield⟩ | ⟨fault, hfault⟩
  · obtain ⟨_, _, _, hread⟩ := hfield.exists_read_eq
    rw [h] at hread
    rcases exists_lexed_or_malformed spec with ⟨name, length, counts, hlexed⟩ | ⟨fault, hfault⟩
    · rcases name_known_or_refused hfield hlexed with ⟨type, rfl⟩ | hunknown
      · cases counts with
        | nil =>
            -- only the bit offset and the length are left to be at fault
            right
            have hknown : typeOfName type.name.toList = .ok type := typeOfName_eq_ok_iff.2 rfl
            rw [hlexed.splitType_eq] at hread
            simp only [ofParts, bind, Except.bind, hknown] at hread
            split at hread
            · next e hbit =>
              rw [Except.error.inj hread]
              exact malformed_of_readBit hbit
            · split at hread
              · next e hlength =>
                rw [Except.error.inj hread]
                exact malformed_of_readLength hlength
              · simp [pure, Except.pure] at hread
        | cons count counts => exact .inl (hrefused _ (.array hfield hlexed))
      · exact .inl (hrefused _ hunknown)
    · rw [hfault] at hread
      exact .inr ⟨fault, Except.error.inj hread⟩
  · rw [h] at hfault
    exact .inr ⟨fault, Except.error.inj hfault⟩

theorem typeRefused_iff {input : List Char} {refusal : Refusal}
    (h : ∀ fault, refusal ≠ .malformed fault) :
    Fields.read input = .error refusal ↔ TypeRefused input refusal := by
  constructor
  · intro hread
    rcases typeRefused_or_malformed hread with hrefused | ⟨fault, hfault⟩
    · exact hrefused
    · exact absurd hfault (h fault)
  · exact TypeRefused.read_eq

/-! ## The error of an address -/

theorem parse_eq_error_iff {s : String} {e : CodecError} :
    parse s = .error e ↔
      ∃ refusal, Fields.read (Text.trim s.toList) = .error refusal ∧
        refusal.toError (Text.trim s.toList) = e := by
  rcases hread : Fields.read (Text.trim s.toList) with refusal | f
  · rw [parse, hread]
    simp [Except.mapError, bind, Except.bind]
  · have hfault := (read_eq_ok_iff.1 hread).fault?_eq_none
    have hok : parse s = .ok ⟨f, hfault⟩ := parse_eq_ok_iff.2 hread
    simp [hok]

theorem toError_eq_unknownType_iff {input : List Char} {refusal : Refusal} {name : String} :
    refusal.toError input = .unknownType name ↔ refusal = .unknownType name.toList := by
  cases refusal <;> simp [Refusal.toError, ← String.toList_inj]

theorem toError_eq_unsupportedType_iff {input : List Char} {refusal : Refusal} {spec : String} :
    refusal.toError input = .unsupportedType spec ↔ refusal = .unsupportedType spec.toList := by
  cases refusal <;> simp [Refusal.toError, ← String.toList_inj]

theorem parse_eq_unknownType_iff {s name : String} :
    parse s = .error (.unknownType name) ↔
      TypeRefused (Text.trim s.toList) (.unknownType name.toList) := by
  rw [parse_eq_error_iff, ← typeRefused_iff (by simp)]
  simp only [toError_eq_unknownType_iff, exists_eq_right]

theorem parse_eq_unsupportedType_iff {s spec : String} :
    parse s = .error (.unsupportedType spec) ↔
      TypeRefused (Text.trim s.toList) (.unsupportedType spec.toList) := by
  rw [parse_eq_error_iff, ← typeRefused_iff (by simp)]
  simp only [toError_eq_unsupportedType_iff, exists_eq_right]

/-- The error names an unknown type, or an array, exactly where the field of the
type says so; every other refused address is malformed and shown without the
blanks around it.  Splitting a type leads to at most as many other splits as it
has opening brackets, and the fields that are read always make a tag. -/
theorem parse_refusals (s : String) :
    (∀ name, parse s = .error (.unknownType name) ↔
      TypeRefused (Text.trim s.toList) (.unknownType name.toList)) ∧
    (∀ spec, parse s = .error (.unsupportedType spec) ↔
      TypeRefused (Text.trim s.toList) (.unsupportedType spec.toList)) ∧
    (∀ e, parse s = .error e → (∀ refusal, ¬ TypeRefused (Text.trim s.toList) refusal) →
      ∃ fault, e = .malformedAddress (String.ofList (Text.trim s.toList)) fault) ∧
    (∀ spec heads, List.IsChain Defers (spec :: heads) → heads.length ≤ spec.count '[') ∧
    ∀ f, Fields.read (Text.trim s.toList) = .ok f → ∃ t, make f = .ok t ∧ parse s = .ok t := by
  refine ⟨fun name => parse_eq_unknownType_iff, fun spec => parse_eq_unsupportedType_iff, ?_,
    fun spec heads => length_le_of_defers, ?_⟩
  · intro e he hnone
    obtain ⟨refusal, hread, hshown⟩ := parse_eq_error_iff.1 he
    rcases typeRefused_or_malformed hread with hrefused | ⟨fault, hfault⟩
    · exact absurd hrefused (hnone refusal)
    · rw [hfault] at hshown
      exact ⟨fault, hshown.symm⟩
  · intro f hread
    have hfault := (read_eq_ok_iff.1 hread).fault?_eq_none
    exact ⟨⟨f, hfault⟩, make_eq_ok_iff.2 rfl, parse_eq_ok_iff.2 hread⟩

/-- An array of arrays of texts, with a bracket for a length and a bit offset out
of range; a name that is none, in the same place; and an array whose last count
is no number. -/
theorem parse_arrays :
    parse " %DB4:0.9:STRING(x])[2][3]" = .error (.unsupportedType "STRING(x])[2]") ∧
    parse " %DB4:0.9:TEXT(x])[2][3]" = .error (.unknownType "TEXT") ∧
    ∃ fault, parse " %DB4:0:INT[2][x]" = .error (.malformedAddress "%DB4:0:INT[2][x]" fault) := by
  have hblock : Numeral ['4'] 4 := Text.numeral_toDigits 4
  have hbyte : Numeral ['0'] 0 := Text.numeral_toDigits 0
  have hcounted : ∀ count ∈ [['2'], ['3']], IsCount count := by
    have htwo : IsCount ['2'] := ⟨2, Text.numeral_toDigits 2, by decide⟩
    have hthree : IsCount ['3'] := ⟨3, Text.numeral_toDigits 3, by decide⟩
    simp [htwo, hthree]
  have hstring : TypeRefused (Text.trim " %DB4:0.9:STRING(x])[2][3]".toList)
      (.unsupportedType "STRING(x])[2]".toList) := by
    have hfield : TypeField (Text.trim " %DB4:0.9:STRING(x])[2][3]".toList)
        "STRING(x])[2][3]".toList :=
      @TypeField.intro ['4'] ['0'] (some ['9']) _ _ _ hblock (by decide) hbyte (by decide)
        (by decide) (by decide)
    have hlexed : Lexed "STRING(x])[2][3]".toList PlcType.string.name.toList (some ['x', ']'])
        [['2'], ['3']] :=
      ⟨by decide, by decide, by simp [isBracket, PlcType.name], hcounted⟩
    exact .array hfield hlexed
  have htext : TypeRefused (Text.trim " %DB4:0.9:TEXT(x])[2][3]".toList)
      (.unknownType "TEXT".toList) := by
    have hfield : TypeField (Text.trim " %DB4:0.9:TEXT(x])[2][3]".toList)
        "TEXT(x])[2][3]".toList :=
      @TypeField.intro ['4'] ['0'] (some ['9']) _ _ _ hblock (by decide) hbyte (by decide)
        (by decide) (by decide)
    have hlexed : Lexed "TEXT(x])[2][3]".toList "TEXT".toList (some ['x', ']'])
        [['2'], ['3']] :=
      ⟨by decide, by decide, by simp [isBracket], hcounted⟩
    apply TypeRefused.unknown hfield hlexed
    intro type
    cases type <;> decide
  have hcount : Fields.read (Text.trim " %DB4:0:INT[2][x]".toList) =
      .error (.malformed .arrayCount) := by
    decide +kernel
  have hnone : ∀ refusal, ¬ TypeRefused (Text.trim " %DB4:0:INT[2][x]".toList) refusal := by
    intro refusal hrefused
    obtain rfl := Except.error.inj (hrefused.read_eq.symm.trans hcount)
    cases hrefused
  have herror : parse " %DB4:0:INT[2][x]" =
      .error (.malformedAddress "%DB4:0:INT[2][x]" .arrayCount) :=
    parse_eq_error_iff.2 ⟨_, hcount, rfl⟩
  obtain ⟨fault, hfault⟩ := (parse_refusals " %DB4:0:INT[2][x]").2.2.1 _ herror hnone
  refine ⟨?_, ?_, fault, ?_⟩
  · exact ((parse_refusals " %DB4:0.9:STRING(x])[2][3]").2.1 _).2 hstring
  · exact ((parse_refusals " %DB4:0.9:TEXT(x])[2][3]").1 _).2 htext
  · rw [herror, hfault]
    rfl

end DataBlock.Tag
