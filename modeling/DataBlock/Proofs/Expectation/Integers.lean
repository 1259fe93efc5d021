import DataBlock.Proofs.Decoding.Encoding
import DataBlock.Proofs.Value.Integers
/-!
# Expected integers

Behind the name of an integer type a number is expected that a value of the type
can be.  The range of the key is that of the bytes, so every number that is read
can be decoded, and every number that is decoded can be read.
-/

namespace DataBlock

namespace PlcType

def integers : List PlcType :=
  [byte, word, dword, sint, usint, int, uint, dint, udint]

def signed : List PlcType := [sint, int, dint]

/-- The text is a numeral of the number, which a plus sign may precede, or a minus
sign for the types with numbers below zero. -/
inductive Spells (type : PlcType) : List Char → Int → Prop
  | plain {s : List Char} {n : Nat} (h : Text.Numeral s n) : Spells type s n
  | plus {s : List Char} {n : Nat} (h : Text.Numeral s n) : Spells type ('+' :: s) n
  | minus {s : List Char} {n : Nat} (hsigned : type ∈ signed) (h : Text.Numeral s n) :
      Spells type ('-' :: s) (-(n : Int))

theorem spells_iff {type : PlcType} {s : List Char} {n : Int} :
    type.Spells s n ↔ Text.SignedNumeral s n ∧ (s.head? = some '-' → type ∈ signed) := by
  constructor
  · intro h
    cases h with
    | plain h =>
        refine ⟨.plain h, ?_⟩
        intro hminus
        exact absurd (List.mem_of_mem_head? hminus) (h.notMem (by decide))
    | plus h => exact ⟨.plus h, by simp⟩
    | minus hsigned h => exact ⟨.minus h, fun _ => hsigned⟩
  · rintro ⟨h, hsigned⟩
    cases h with
    | plain h => exact .plain h
    | plus h => exact .plus h
    | minus h => exact .minus (hsigned rfl) h

end PlcType

/-! ## Numbers of a width -/

theorem exists_toNat_eq (width : Nat) {n : Int} (hlow : 0 ≤ n) (hhigh : n < (2 ^ width : Nat)) :
    ∃ a : BitVec width, (a.toNat : Int) = n := by
  refine ⟨BitVec.ofInt width n, ?_⟩
  rw [BitVec.toNat_ofInt, Int.emod_eq_of_lt hlow hhigh, Int.toNat_of_nonneg hlow]

theorem exists_toInt_eq (width : Nat) {n : Int} (hlow : -(2 ^ width : Nat) ≤ n)
    (hhigh : n < (2 ^ width : Nat)) : ∃ a : BitVec (width + 1), a.toInt = n := by
  refine ⟨BitVec.ofInt (width + 1) n, ?_⟩
  apply BitVec.toInt_ofInt_eq_self (Nat.succ_pos width)
  · simpa using hlow
  · simpa using hhigh

namespace Tag

open Expectation (Form)

variable {t : Tag} {low high : Int}

/-- Every number in the range of the type's key has bytes of the type. -/
theorem exists_encodes {n : Int} (hform : Form.ofKey? t.type.name = some (.int low high))
    (hlow : low ≤ n) (hhigh : n ≤ high) : ∃ v bytes, t.Encodes v bytes ∧ v.toInt? = some n := by
  cases htype : t.type <;> rw [htype] at hform <;> cases hform
  case byte =>
      obtain ⟨a, rfl⟩ := exists_toNat_eq 8 hlow (Int.lt_of_le_sub_one hhigh)
      exact ⟨_, _, .byte htype (.ofBitVec a), rfl⟩
  case word =>
      obtain ⟨a, rfl⟩ := exists_toNat_eq 16 hlow (Int.lt_of_le_sub_one hhigh)
      exact ⟨_, _, .word htype (.ofBitVec a), rfl⟩
  case dword =>
      obtain ⟨a, rfl⟩ := exists_toNat_eq 32 hlow (Int.lt_of_le_sub_one hhigh)
      exact ⟨_, _, .dword htype (.ofBitVec a), rfl⟩
  case sint =>
      obtain ⟨a, rfl⟩ := exists_toInt_eq 7 hlow (Int.lt_of_le_sub_one hhigh)
      exact ⟨_, _, .sint htype (.ofBitVec a), rfl⟩
  case usint =>
      obtain ⟨a, rfl⟩ := exists_toNat_eq 8 hlow (Int.lt_of_le_sub_one hhigh)
      exact ⟨_, _, .usint htype (.ofBitVec a), rfl⟩
  case int =>
      obtain ⟨a, rfl⟩ := exists_toInt_eq 15 hlow (Int.lt_of_le_sub_one hhigh)
      exact ⟨_, _, .int htype (.ofBitVec a), rfl⟩
  case uint =>
      obtain ⟨a, rfl⟩ := exists_toNat_eq 16 hlow (Int.lt_of_le_sub_one hhigh)
      exact ⟨_, _, .uint htype (.ofBitVec a), rfl⟩
  case dint =>
      obtain ⟨a, rfl⟩ := exists_toInt_eq 31 hlow (Int.lt_of_le_sub_one hhigh)
      exact ⟨_, _, .dint htype (.ofBitVec a), rfl⟩
  case udint =>
      obtain ⟨a, rfl⟩ := exists_toNat_eq 32 hlow (Int.lt_of_le_sub_one hhigh)
      exact ⟨_, _, .udint htype (.ofBitVec a), rfl⟩

def Shows (t : Tag) (n : Int64) : Prop :=
  ∃ buf v, t.decode buf = .ok v ∧ v.asInt64? = some n

theorem shows_iff {n : Int64} (hform : Form.ofKey? t.type.name = some (.int low high)) :
    t.Shows n ↔ low ≤ n.toInt ∧ n.toInt ≤ high := by
  constructor
  · rintro ⟨buf, v, hv, hn⟩
    rw [Value.asInt64?_eq_some_iff_toInt?] at hn
    obtain ⟨htype, hfits⟩ := Value.fits_of_decode hv
    obtain ⟨low', high', hform', hrange, -⟩ := Expectation.exists_form_of_toInt? hfits hn
    rw [htype, hform] at hform'
    cases hform'
    exact hrange
  · rintro ⟨hlow, hhigh⟩
    obtain ⟨v, bytes, hencodes, hn⟩ := exists_encodes hform hlow hhigh
    exact ⟨bytes, v, hencodes.decode_eq, Value.asInt64?_eq_some_iff_toInt?.2 hn⟩

end Tag

namespace Expectation

variable {type : PlcType}

/-- The range of the key of an integer type; it begins below zero for the types
with a sign, and 64 bits with a sign can hold it. -/
theorem exists_form_of_mem_integers (htype : type ∈ PlcType.integers) :
    ∃ low high, Form.ofKey? type.name = some (.int low high) ∧
      (0 ≤ low ↔ type ∉ PlcType.signed) ∧
      Int64.minValue.toInt ≤ low ∧ high ≤ Int64.maxValue.toInt := by
  cases type with
  | byte | word | dword | sint | usint | int | uint | dint | udint =>
      exact ⟨_, _, rfl, by decide, by decide, by decide⟩
  | _ => exact absurd htype (by decide)

theorem read_int_eq_ok_iff {low high : Int} {value : List Char} {e : Expectation} :
    (Form.int low high).read value = .ok e ↔
      ∃ n, Text.integer? low high (Text.trim value) = some n ∧ .int (Int64.ofInt n) = e := by
  rw [Form.read, orMalformed_eq_ok_iff, Option.map_eq_some_iff]

theorem parse_integer_eq_ok_iff {t : Tag} (htype : t.type ∈ PlcType.integers) {text : String}
    {e : Expectation} :
    parse (t.type.name ++ ";" ++ text) = .ok e ↔
      ∃ n, e = .int n ∧ t.type.Spells (Text.trim text.toList) n.toInt ∧ t.Shows n := by
  obtain ⟨low, high, hform, hsign, hleast, hmost⟩ := exists_form_of_mem_integers htype
  have hkey : ';' ∉ t.type.name.toList := Tag.notMem_name (by decide) (by decide)
  rw [parse_append_eq_ok_iff hkey hform, read_int_eq_ok_iff]
  simp only [Text.integer?_eq_some_iff, PlcType.spells_iff, Tag.shows_iff hform, hsign]
  constructor
  · rintro ⟨n, ⟨hnumeral, hrange, hminus⟩, rfl⟩
    have hn := Value.toInt_ofInt (Int.le_trans hleast hrange.1) (Int.le_trans hrange.2 hmost)
    refine ⟨_, rfl, ?_⟩
    rw [hn]
    refine ⟨⟨hnumeral, ?_⟩, hrange⟩
    intro hhead
    by_contra hunsigned
    exact hminus ⟨hunsigned, hhead⟩
  · rintro ⟨n, rfl, ⟨hnumeral, hminus⟩, hrange⟩
    refine ⟨n.toInt, ⟨hnumeral, hrange, ?_⟩, by rw [Int64.ofInt_toInt]⟩
    rintro ⟨hunsigned, hhead⟩
    exact hunsigned (hminus hhead)

/-- What is decoded as an integer type is seen as a number. -/
theorem exists_asInt64?_of_decode {t : Tag} (htype : t.type ∈ PlcType.integers) {buf : Bytes}
    {v : Value} (hv : t.decode buf = .ok v) : ∃ n, v.asInt64? = some n := by
  obtain ⟨hsame, hfits⟩ := Value.fits_of_decode hv
  have hnumber : ∃ n, v.toInt? = some n := by
    rw [← hsame] at htype
    cases v with
    | byte | word | dword | sint | usint | int | uint | dint | udint => exact ⟨_, rfl⟩
    | _ => exact absurd htype (by simp [Value.type, PlcType.integers])
  obtain ⟨n, hn⟩ := hnumber
  obtain ⟨low, high, -, ⟨hlow, hhigh⟩, hleast, hmost⟩ := exists_form_of_toInt? hfits hn
  exact ⟨_, (Value.asInt64?_eq_some_iff (Int.le_trans hleast hlow)
    (Int.le_trans hhigh hmost)).2 hn⟩

/-- Behind the name of an integer type exactly the numerals of those numbers are
read that bytes of the type, at whatever tag, stand for.  So some bytes are as is
expected, whatever is read there, and what any bytes stand for can be expected. -/
theorem parse_integer_iff_decoded {type : PlcType} (htype : type ∈ PlcType.integers) :
    (∃ t : Tag, t.type = type) ∧ ∀ t : Tag, t.type = type →
      (∀ (text : String) (n : Int64), parse (type.name ++ ";" ++ text) = .ok (.int n) ↔
        type.Spells (Text.trim text.toList) n.toInt ∧
          ∃ buf v, t.decode buf = .ok v ∧ v.asInt64? = some n) ∧
      (∀ (text : String) (e : Expectation), parse (type.name ++ ";" ++ text) = .ok e →
        ∃ buf v, t.decode buf = .ok v ∧ e.accepts v = true) ∧
      ∀ buf v, t.decode buf = .ok v → ∃ n, v.asInt64? = some n ∧
        ∀ text : String, type.Spells (Text.trim text.toList) n.toInt →
          parse (type.name ++ ";" ++ text) = .ok (.int n) := by
  constructor
  · have hfault : Tag.Fields.fault? ⟨0, 0, 0, type, none⟩ = none := by
      cases type with
      | string | wstring => exact absurd htype (by decide)
      | _ => rfl
    exact ⟨⟨_, hfault⟩, rfl⟩
  rintro t rfl
  refine ⟨?_, ?_, ?_⟩
  · intro text n
    rw [parse_integer_eq_ok_iff htype]
    constructor
    · rintro ⟨_, ⟨⟩, hspells, hshows⟩
      exact ⟨hspells, hshows⟩
    · rintro ⟨hspells, hshows⟩
      exact ⟨n, rfl, hspells, hshows⟩
  · intro text e he
    obtain ⟨n, rfl, -, buf, v, hv, hn⟩ := (parse_integer_eq_ok_iff htype).1 he
    refine ⟨buf, v, hv, ?_⟩
    rw [accepts, hn, beq_iff_eq]
  · intro buf v hv
    obtain ⟨n, hn⟩ := exists_asInt64?_of_decode htype hv
    refine ⟨n, hn, ?_⟩
    intro text hspells
    exact (parse_integer_eq_ok_iff htype).2 ⟨n, rfl, hspells, buf, v, hv, hn⟩

def level : Tag := ⟨⟨4, 2, 0, .sint, none⟩, rfl⟩

/-- The least number is read between blanks and behind a zero, and its one byte is as
is expected then. -/
theorem parse_integer_level :
    level.decode [0x80] = .ok (.sint (-128)) ∧
    parse ("SINT" ++ ";" ++ " -0128\t") = .ok (.int (-128)) ∧
    ∃ buf v, level.decode buf = .ok v ∧ (Expectation.int (-128)).accepts v = true := by
  have htype : PlcType.sint ∈ PlcType.integers := by decide
  obtain ⟨hparse, hexpected, -⟩ := (parse_integer_iff_decoded htype).2 level rfl
  have hdecode : level.decode [0x80] = .ok (.sint (-128)) := by decide +kernel
  have hnumeral : Text.Numeral ['0', '1', '2', '8'] 128 := Text.numeral_padded 4 128
  have hspells : PlcType.sint.Spells ['-', '0', '1', '2', '8'] (-128) :=
    .minus (by decide) hnumeral
  have hleast : parse ("SINT" ++ ";" ++ " -0128\t") = .ok (.int (-128)) :=
    (hparse " -0128\t" (-128)).2 ⟨hspells, [0x80], _, hdecode, by decide⟩
  exact ⟨hdecode, hleast, hexpected _ _ hleast⟩

end Expectation

end DataBlock
