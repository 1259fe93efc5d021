import DataBlock.Power
import DataBlock.Proofs.Text.Pieces
/-!
# Numerals in print

A number is printed with a numeral, after a minus sign if it is negative.  The
readers of this library read it back, and no printed number has a blank.
-/

namespace DataBlock.Text

/-! ## Digits -/

/-- A numeral begins with a digit, and so with no sign. -/
theorem Numeral.exists_cons {s : List Char} {n : Nat} (h : Numeral s n) :
    ∃ c rest, s = c :: rest ∧ c.isDigit = true := by
  cases s with
  | nil => exact absurd rfl h.ne_nil
  | cons c rest => exact ⟨c, rest, rfl, h.digits c List.mem_cons_self⟩

theorem numeral_padded (width n : Nat) : Numeral (padded width n) n := by
  have hdigits := numeral_toDigits n
  refine ⟨?_, ?_, ?_⟩
  · rw [padded, Ne, List.append_eq_nil_iff, not_and]
    intro _
    exact hdigits.ne_nil
  · intro c hc
    rcases List.mem_append.1 hc with hzero | hdigit
    · rw [List.eq_of_mem_replicate hzero]
      decide
    · exact hdigits.digits c hdigit
  · rw [padded, Nat.ofDigitChars_append, Nat.ofDigitChars_replicate_zero, Nat.mul_zero,
      hdigits.value]

theorem isBlank_eq_false_of_mem_padded (width n : Nat) :
    ∀ c ∈ padded width n, isBlank c = false :=
  (numeral_padded width n).isBlank_eq_false

theorem length_padded {width n : Nat} (hwidth : 0 < width) (hn : n < 10 ^ width) :
    (padded width n).length = width := by
  have hdigits : (Nat.toDigits 10 n).length ≤ width :=
    (Nat.length_toDigits_le_iff (by decide) hwidth).2 hn
  rw [padded, List.length_append, List.length_replicate]
  omega

/-! ## Numbers -/

theorem natural?_of_numeral {bound n : Nat} {s : List Char} (h : Numeral s n) (hn : n < bound) :
    natural? bound s = some n :=
  natural?_eq_some_iff.2 ⟨s, .inl rfl, h, hn⟩

theorem signed?_of_numeral {s : List Char} {n : Nat} (h : Numeral s n) :
    signed? s = some (n : Int) := by
  obtain ⟨c, rest, hs, hc⟩ := h.exists_cons
  have hread := numeral?_eq_some_iff.2 h
  rw [hs] at hread ⊢
  unfold signed?
  split
  · next heq =>
    rw [(List.cons.inj heq).1] at hc
    contradiction
  · next heq =>
    rw [(List.cons.inj heq).1] at hc
    contradiction
  · rw [hread]
    rfl

theorem toList_repr_of_nonneg {n : Int} (h : 0 ≤ n) :
    n.repr.toList = Nat.toDigits 10 n.toNat := by
  rw [Int.repr_eq_if, if_pos h, Nat.toList_repr]

theorem toList_repr_of_neg {n : Int} (h : n < 0) :
    n.repr.toList = '-' :: Nat.toDigits 10 (-n).toNat := by
  rw [Int.repr_eq_if, if_neg (by omega), String.toList_append, Nat.toList_repr]
  rfl

theorem signed?_repr (n : Int) : signed? n.repr.toList = some n := by
  rcases Int.lt_or_le n 0 with hneg | hnonneg
  · have hread := numeral?_toDigits (-n).toNat
    rw [toList_repr_of_neg hneg, signed?, hread]
    change some (-((-n).toNat : Int)) = some n
    rw [Option.some.injEq]
    omega
  · rw [toList_repr_of_nonneg hnonneg, signed?_of_numeral (numeral_toDigits n.toNat),
      Option.some.injEq]
    omega

/-- A printed number is read back wherever it is in range. -/
theorem integer?_repr {low high n : Int} (hlow : low ≤ n) (hhigh : n ≤ high) :
    integer? low high n.repr.toList = some n := by
  have hsign : ¬ (0 ≤ low ∧ n.repr.toList.head? = some '-') := by
    rintro ⟨hlow', hhead⟩
    rw [toList_repr_of_nonneg (by omega)] at hhead
    obtain ⟨c, rest, hs, hc⟩ := (numeral_toDigits n.toNat).exists_cons
    rw [hs, List.head?_cons, Option.some.injEq] at hhead
    rw [hhead] at hc
    contradiction
  rw [integer?, if_neg hsign, signed?_repr, Option.filter_some, if_pos]
  exact decide_eq_true ⟨hlow, hhigh⟩

theorem trim_repr (n : Int) : trim n.repr.toList = n.repr.toList := by
  apply trim_eq_self
  rcases Int.lt_or_le n 0 with hneg | hnonneg
  · rw [toList_repr_of_neg hneg]
    intro c hc
    rcases List.mem_cons.1 hc with rfl | hdigit
    · decide
    · exact (numeral_toDigits (-n).toNat).isBlank_eq_false c hdigit
  · rw [toList_repr_of_nonneg hnonneg]
    exact (numeral_toDigits n.toNat).isBlank_eq_false

end DataBlock.Text
