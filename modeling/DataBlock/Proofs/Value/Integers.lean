import DataBlock.Proofs.Expectation.Written
/-!
# Integers of values

Nine types hold integers.  Such a value is seen as a number of 64 bits with a sign
wherever one can hold it, and compared as that number.  Without a sign it is seen
only from there on, so that no number above those with a sign is, which a decoded
value never reaches.
-/

namespace DataBlock

namespace Value

inductive Holds : Value → Int → Prop
  | byte (n : UInt16) : Holds (byte n) n.toNat
  | word (n : UInt16) : Holds (word n) n.toNat
  | dword (n : UInt64) : Holds (dword n) n.toNat
  | sint (n : Int8) : Holds (sint n) n.toInt
  | usint (n : UInt16) : Holds (usint n) n.toNat
  | int (n : Int16) : Holds (int n) n.toInt
  | uint (n : UInt16) : Holds (uint n) n.toNat
  | dint (n : Int32) : Holds (dint n) n.toInt
  | udint (n : UInt64) : Holds (udint n) n.toNat

variable {v : Value} {n : Int}

theorem toInt?_eq_some_iff : v.toInt? = some n ↔ v.Holds n := by
  constructor
  · intro h
    cases v with
    | byte | word | dword | sint | usint | int | uint | dint | udint =>
        obtain rfl := Option.some.inj h
        constructor
    | _ => cases h
  · intro h
    cases h <;> rfl

theorem toInt?_eq_none_iff : v.toInt? = none ↔ ∀ n, ¬ v.Holds n := by
  rw [Option.eq_none_iff_forall_ne_some]
  simp only [Ne, toInt?_eq_some_iff]

theorem toInt_mem (a : Int64) :
    Int64.minValue.toInt ≤ a.toInt ∧ a.toInt ≤ Int64.maxValue.toInt := by
  have hmin : Int64.minValue.toInt = -9223372036854775808 := by decide
  have hmax : Int64.maxValue.toInt = 9223372036854775807 := by decide
  have hlow := a.le_toInt
  have hhigh := a.toInt_lt
  omega

theorem asInt64?_eq_some_iff_toInt? {a : Int64} :
    v.asInt64? = some a ↔ v.toInt? = some a.toInt := by
  have hiff := asInt64?_eq_some_iff (v := v) (toInt_mem a).1 (toInt_mem a).2
  rwa [Int64.ofInt_toInt] at hiff

/-- As a number with a sign an integer value is the number it holds, or nothing. -/
theorem Holds.asInt64?_eq_some_iff (h : v.Holds n) {a : Int64} :
    v.asInt64? = some a ↔ a.toInt = n := by
  rw [asInt64?_eq_some_iff_toInt?, toInt?_eq_some_iff.2 h, Option.some.injEq, eq_comm]

theorem Holds.asInt64?_eq_none_iff (h : v.Holds n) :
    v.asInt64? = none ↔ ¬ (Int64.minValue.toInt ≤ n ∧ n ≤ Int64.maxValue.toInt) := by
  rw [Option.eq_none_iff_forall_ne_some]
  simp only [Ne, h.asInt64?_eq_some_iff]
  constructor
  · rintro hnone ⟨hlow, hhigh⟩
    exact hnone _ (toInt_ofInt hlow hhigh)
  · rintro hout a rfl
    exact hout (toInt_mem a)

theorem toNat_toUInt64 {a : Int64} (h : 0 ≤ a) : (a.toUInt64.toNat : Int) = a.toInt := by
  rw [Int64.toNat_toUInt64_of_le h, Int64.cast_toNatClampNeg a h]

theorem Holds.asUInt64?_eq_some_iff (h : v.Holds n) {b : UInt64} :
    v.asUInt64? = some b ↔ (b.toNat : Int) = n ∧ n ≤ Int64.maxValue.toInt := by
  rw [asUInt64?, Option.map_eq_some_iff]
  simp only [Option.filter_eq_some_iff, h.asInt64?_eq_some_iff, decide_eq_true_eq]
  constructor
  · rintro ⟨a, ⟨rfl, hnonneg⟩, rfl⟩
    exact ⟨toNat_toUInt64 hnonneg, (toInt_mem a).2⟩
  · rintro ⟨rfl, hhigh⟩
    have hlow : Int64.minValue.toInt ≤ b.toNat :=
      Int.le_trans (by decide) (Int.natCast_nonneg b.toNat)
    have hvalue := toInt_ofInt hlow hhigh
    have hnonneg : 0 ≤ Int64.ofInt b.toNat := by
      rw [Int64.le_iff_toInt_le, hvalue, Int64.toInt_zero]
      exact Int.natCast_nonneg b.toNat
    refine ⟨Int64.ofInt b.toNat, ⟨hvalue, hnonneg⟩, ?_⟩
    rw [← UInt64.toNat_inj, ← Int.natCast_inj, toNat_toUInt64 hnonneg, hvalue]

theorem Holds.asUInt64?_eq_none_iff (h : v.Holds n) :
    v.asUInt64? = none ↔ n < 0 ∨ Int64.maxValue.toInt < n := by
  have hmax : Int64.maxValue.toInt = 9223372036854775807 := by decide
  rw [Option.eq_none_iff_forall_ne_some]
  simp only [Ne, h.asUInt64?_eq_some_iff]
  constructor
  · intro hnone
    by_contra hin
    have hsmall : n.toNat < UInt64.size := by
      have hsize : UInt64.size = 18446744073709551616 := rfl
      omega
    apply hnone (UInt64.ofNat n.toNat)
    rw [UInt64.toNat_ofNat_of_lt' hsmall]
    omega
  · rintro hout b ⟨rfl, hhigh⟩
    omega

theorem Holds.accepts_int_iff (h : v.Holds n) {a : Int64} :
    (Expectation.int a).accepts v = true ↔ a.toInt = n := by
  rw [Expectation.accepts, beq_iff_eq, h.asInt64?_eq_some_iff]

/-- No decoded value holds a number that only 64 bits without a sign can hold. -/
theorem Holds.le_of_decode (h : v.Holds n) {t : Tag} {buf : Bytes} (hv : t.decode buf = .ok v) :
    n ≤ Int64.maxValue.toInt := by
  obtain ⟨low, high, -, ⟨-, hhigh⟩, -, hmost⟩ :=
    Expectation.exists_form_of_toInt? (fits_of_decode hv).2 (toInt?_eq_some_iff.2 h)
  exact Int.le_trans hhigh hmost

/-- A value of an integer type is seen as a number with a sign exactly if 64 bits
can hold it, and compared as the number it holds.  Without a sign it is seen exactly
if it is not negative and 64 bits with a sign can hold it; of decoded values that is
every number that is not negative.  Any other value is no number and is never the
expected one. -/
theorem integer_seen (v : Value) :
    (∀ n, v.Holds n →
      (∀ a, v.asInt64? = some a ↔ a.toInt = n) ∧
      (v.asInt64? = none ↔ ¬ (Int64.minValue.toInt ≤ n ∧ n ≤ Int64.maxValue.toInt)) ∧
      (∀ b, v.asUInt64? = some b ↔ (b.toNat : Int) = n ∧ n ≤ Int64.maxValue.toInt) ∧
      (v.asUInt64? = none ↔ n < 0 ∨ Int64.maxValue.toInt < n) ∧
      (∀ a, (Expectation.int a).accepts v = true ↔ a.toInt = n) ∧
      ∀ (t : Tag) (buf : Bytes), t.decode buf = .ok v →
        ∀ b, v.asUInt64? = some b ↔ (b.toNat : Int) = n) ∧
    ((∀ n, ¬ v.Holds n) →
      v.asInt64? = none ∧ v.asUInt64? = none ∧
        ∀ a, (Expectation.int a).accepts v = false) := by
  constructor
  · intro n h
    refine ⟨fun a => h.asInt64?_eq_some_iff, h.asInt64?_eq_none_iff,
      fun b => h.asUInt64?_eq_some_iff, h.asUInt64?_eq_none_iff,
      fun a => h.accepts_int_iff, ?_⟩
    intro t buf hv b
    rw [h.asUInt64?_eq_some_iff]
    exact and_iff_left (h.le_of_decode hv)
  · intro hnone
    have hsigned : v.asInt64? = none := by
      rw [asInt64?, toInt?_eq_none_iff.2 hnone]
      rfl
    refine ⟨hsigned, ?_, ?_⟩
    · rw [asUInt64?, hsigned]
      rfl
    · intro a
      rw [Expectation.accepts, hsigned]
      rfl

def counter : Tag := ⟨⟨9, 0, 0, .udint, none⟩, rfl⟩

theorem integer_seen_atTheEnds :
    ((dword 9223372036854775807).asInt64? = some 9223372036854775807 ∧
      (sint (-128)).asInt64? = some (-128) ∧ (sint (-128)).asUInt64? = none ∧
      (Expectation.int (-128)).accepts (sint (-128)) = true) ∧
    (counter.decode [0xFF, 0xFF, 0xFF, 0xFF] = .ok (udint 4294967295) ∧
      (udint 4294967295).asUInt64? = some 4294967295) ∧
    (bool true).asInt64? = none := by
  have hdword := (integer_seen (dword 9223372036854775807)).1 _ (.dword _)
  have hsint := (integer_seen (sint (-128))).1 _ (.sint _)
  have hudint := (integer_seen (udint 4294967295)).1 _ (.udint _)
  have hbool := (integer_seen (bool true)).2 (by rintro n ⟨⟩)
  have hcounter : counter.decode [0xFF, 0xFF, 0xFF, 0xFF] = .ok (udint 4294967295) := by
    decide +kernel
  refine ⟨⟨(hdword.1 _).2 (by decide), (hsint.1 _).2 (by decide), hsint.2.2.2.1.2 (by decide),
    (hsint.2.2.2.2.1 _).2 (by decide)⟩, ⟨hcounter, ?_⟩, hbool.1⟩
  exact (hudint.2.2.2.2.2 counter _ hcounter _).2 (by decide)

/-- The first number that takes all 64 bits is not negative, and yet not seen as a
number without a sign. -/
theorem half_unseen :
    (udint 9223372036854775808).Holds 9223372036854775808 ∧
      (udint 9223372036854775808).asUInt64? = none :=
  ⟨.udint 9223372036854775808, by decide⟩

end Value

end DataBlock
