import DataBlock.Text.Blank
import DataBlock.Text.Numeral
import DataBlock.Text.Split
import Mathlib.Data.List.Basic
import Mathlib.Data.List.TakeWhile
/-!
# Pieces of a text

What the readers of numerals, cuts and blanks accept, said of the text itself:
a numeral is a run of digits with a value, a cut text is its pieces with the
separators between them, and a text without blanks is trimmed already.
-/

namespace DataBlock.Text

/-! ## Numerals -/

/-- ASCII digits, one or more, that denote the number. -/
structure Numeral (s : List Char) (n : Nat) : Prop where
  ne_nil : s ≠ []
  digits : ∀ c ∈ s, c.isDigit = true
  value : Nat.ofDigitChars 10 s 0 = n

theorem numeral?_eq_some_iff {s : List Char} {n : Nat} :
    numeral? s = some n ↔ Numeral s n := by
  unfold numeral?
  constructor
  · intro h
    split at h
    · next hs => exact ⟨hs.1, List.all_eq_true.1 hs.2, by simpa using h⟩
    · simp at h
  · intro h
    have hall : s.all Char.isDigit = true := List.all_eq_true.2 h.digits
    rw [if_pos ⟨h.ne_nil, hall⟩, h.value]

theorem numeralBelow?_eq_some_iff {bound n : Nat} {s : List Char} :
    numeralBelow? bound s = some n ↔ Numeral s n ∧ n < bound := by
  rw [numeralBelow?, Option.filter_eq_some_iff, numeral?_eq_some_iff, decide_eq_true_eq]

theorem numeral_toDigits (n : Nat) : Numeral (Nat.toDigits 10 n) n :=
  numeral?_eq_some_iff.1 (numeral?_toDigits n)

theorem Numeral.unique {s : List Char} {m n : Nat} (hm : Numeral s m) (hn : Numeral s n) :
    m = n := by
  rw [← hm.value, hn.value]

theorem Numeral.notMem {s : List Char} {n : Nat} (h : Numeral s n) {c : Char}
    (hc : c.isDigit = false) : c ∉ s := by
  intro hmem
  have hdigit := h.digits c hmem
  rw [hc] at hdigit
  contradiction

/-- A natural number is read from a numeral, alone or after a plus sign. -/
theorem natural?_eq_some_iff {bound n : Nat} {s : List Char} :
    natural? bound s = some n ↔
      ∃ digits, (s = digits ∨ s = '+' :: digits) ∧ Numeral digits n ∧ n < bound := by
  unfold natural?
  split
  · next t =>
    rw [numeralBelow?_eq_some_iff]
    constructor
    · intro h
      exact ⟨t, .inr rfl, h⟩
    · rintro ⟨digits, rfl | hs, hnumeral, hn⟩
      · exact absurd List.mem_cons_self (hnumeral.notMem (by decide))
      · obtain rfl := (List.cons.inj hs).2
        exact ⟨hnumeral, hn⟩
  · next hplus =>
    rw [numeralBelow?_eq_some_iff]
    constructor
    · intro h
      exact ⟨s, .inl rfl, h⟩
    · rintro ⟨digits, rfl | rfl, h⟩
      · exact h
      · exact absurd rfl (hplus digits)

theorem notMem_of_natural? {bound n : Nat} {s : List Char} (h : natural? bound s = some n)
    {c : Char} (hdigit : c.isDigit = false) (hplus : c ≠ '+') : c ∉ s := by
  obtain ⟨digits, rfl | rfl, hnumeral, -⟩ := natural?_eq_some_iff.1 h
  · exact hnumeral.notMem hdigit
  · simp [hplus, hnumeral.notMem hdigit]

/-! ## Numerals with a sign -/

inductive SignedNumeral : List Char → Int → Prop
  | plain {s : List Char} {n : Nat} (h : Numeral s n) : SignedNumeral s n
  | plus {s : List Char} {n : Nat} (h : Numeral s n) : SignedNumeral ('+' :: s) n
  | minus {s : List Char} {n : Nat} (h : Numeral s n) : SignedNumeral ('-' :: s) (-(n : Int))

theorem signed?_eq_some_iff {s : List Char} {n : Int} :
    signed? s = some n ↔ SignedNumeral s n := by
  constructor
  · intro h
    unfold signed? at h
    split at h
    · next t =>
      rcases hm : numeral? t with _ | m
      · rw [hm] at h
        cases h
      · rw [hm] at h
        obtain rfl : -(m : Int) = n := Option.some.inj h
        exact .minus (numeral?_eq_some_iff.1 hm)
    · obtain ⟨m, hm, rfl⟩ := Option.map_eq_some_iff.1 h
      exact .plus (numeral?_eq_some_iff.1 hm)
    · obtain ⟨m, hm, rfl⟩ := Option.map_eq_some_iff.1 h
      exact .plain (numeral?_eq_some_iff.1 hm)
  · intro h
    cases h with
    | plain h =>
        unfold signed?
        split
        · exact absurd List.mem_cons_self (h.notMem (by decide))
        · exact absurd List.mem_cons_self (h.notMem (by decide))
        · rw [numeral?_eq_some_iff.2 h]
          rfl
    | plus h | minus h =>
        rw [signed?, numeral?_eq_some_iff.2 h]
        rfl

/-- A whole number is read from a signed numeral in range; a minus sign is refused
where no number below zero is in range. -/
theorem integer?_eq_some_iff {low high n : Int} {s : List Char} :
    integer? low high s = some n ↔
      SignedNumeral s n ∧ (low ≤ n ∧ n ≤ high) ∧ ¬ (0 ≤ low ∧ s.head? = some '-') := by
  unfold integer?
  split
  · next hsign => simp [hsign]
  · next hsign =>
    rw [Option.filter_eq_some_iff, signed?_eq_some_iff, decide_eq_true_eq]
    simp [hsign]

/-! ## Cuts -/

@[simp] theorem dropLast?_concat (c : Char) (s : List Char) :
    dropLast? c (s ++ [c]) = some s := by
  simp [dropLast?]

theorem eq_concat_of_dropLast? {c : Char} {s a : List Char} (h : dropLast? c s = some a) :
    s = a ++ [c] := by
  unfold dropLast? at h
  split at h
  · next hlast =>
    have ha : s.dropLast = a := by simpa using h
    rw [← ha]
    exact (List.dropLast_append_getLast? c hlast).symm
  · simp at h

theorem dropLast?_eq_none_of_notMem {c : Char} {s : List Char} (h : c ∉ s) :
    dropLast? c s = none := by
  rcases hs : dropLast? c s with _ | a
  · rfl
  · rw [eq_concat_of_dropLast? hs] at h
    simp at h

theorem dropLast?_concat_of_ne {c d : Char} (h : d ≠ c) (s : List Char) :
    dropLast? c (s ++ [d]) = none := by
  simp [dropLast?, h]

theorem splitLast?_append {c : Char} (a : List Char) {b : List Char} (h : c ∉ b) :
    splitLast? c (a ++ c :: b) = some (a, b) := by
  have hreverse : (a ++ c :: b).reverse = b.reverse ++ c :: a.reverse := by simp
  have hb : c ∉ b.reverse := by simpa using h
  rw [splitLast?, hreverse, splitFirst?_append a.reverse hb]
  simp

theorem splitOn_three {c : Char} {x y z : List Char} (hx : c ∉ x) (hy : c ∉ y) (hz : c ∉ z) :
    (x ++ c :: (y ++ c :: z)).splitOn c = [x, y, z] := by
  rw [List.splitOn_append_cons_self_of_not_mem hx, List.splitOn_append_cons_self_of_not_mem hy,
    List.splitOn_eq_singleton hz]

theorem eq_of_splitOn_three {c : Char} {s x y z : List Char} (h : s.splitOn c = [x, y, z]) :
    s = x ++ c :: (y ++ c :: z) := by
  have hs : [c].intercalate (s.splitOn c) = s := List.intercalate_splitOn c
  rw [h] at hs
  simpa [List.intercalate] using hs.symm

theorem notMem_of_mem_splitOn {c : Char} {s piece : List Char} (h : piece ∈ s.splitOn c) :
    c ∉ piece := by
  by_cases hmem : c ∈ s
  · obtain ⟨first, rest, rfl, hfirst⟩ := List.eq_append_cons_of_mem hmem
    rw [List.splitOn_append_cons_self_of_not_mem hfirst, List.mem_cons] at h
    rcases h with rfl | h
    · exact hfirst
    · exact notMem_of_mem_splitOn h
  · rw [List.splitOn_eq_singleton hmem, List.mem_singleton] at h
    rwa [h]
termination_by s.length

theorem splitOn_eq_pair_iff {c : Char} {s a b : List Char} :
    s.splitOn c = [a, b] ↔ s = a ++ c :: b ∧ c ∉ a ∧ c ∉ b := by
  constructor
  · intro h
    have hs : [c].intercalate (s.splitOn c) = s := List.intercalate_splitOn c
    rw [h] at hs
    refine ⟨by simpa [List.intercalate] using hs.symm, ?_, ?_⟩
    · exact notMem_of_mem_splitOn (s := s) (by simp [h])
    · exact notMem_of_mem_splitOn (s := s) (by simp [h])
  · rintro ⟨rfl, ha, hb⟩
    rw [List.splitOn_append_cons_self_of_not_mem ha, List.splitOn_eq_singleton hb]

/-- A text is cut before the first character without a property. -/
theorem takeWhile_dropWhile_eq_iff {p : Char → Bool} {s a b : List Char} {c : Char} :
    s.takeWhile p = a ∧ s.dropWhile p = c :: b ↔
      s = a ++ c :: b ∧ (∀ x ∈ a, p x = true) ∧ p c = false := by
  constructor
  · rintro ⟨rfl, hb⟩
    refine ⟨?_, fun x hx => List.mem_takeWhile_imp hx, ?_⟩
    · rw [← hb, List.takeWhile_append_dropWhile]
    · have hfirst := List.head?_dropWhile_not p s
      rwa [hb] at hfirst
  · rintro ⟨rfl, ha, hc⟩
    have hneg : ¬ p c = true := by simp [hc]
    rw [List.takeWhile_append_of_pos ha, List.dropWhile_append_of_pos ha,
      List.takeWhile_cons_of_neg hneg, List.dropWhile_cons_of_neg hneg, List.append_nil]
    exact ⟨rfl, rfl⟩

/-! ## Blanks -/

theorem Numeral.isBlank_eq_false {s : List Char} {n : Nat} (h : Numeral s n) :
    ∀ c ∈ s, isBlank c = false := by
  intro c hc
  exact isBlank_eq_false_of_isDigit (h.digits c hc)

theorem trim_eq_self {s : List Char} (h : ∀ c ∈ s, isBlank c = false) : trim s = s := by
  have hkeep : ∀ t : List Char, (∀ c ∈ t, isBlank c = false) → t.dropWhile isBlank = t := by
    intro t ht
    cases t with
    | nil => rfl
    | cons c t => simp [ht c List.mem_cons_self]
  rw [trim, trimStart, hkeep s h, trimEnd, hkeep s.reverse, List.reverse_reverse]
  intro c hc
  exact h c (List.mem_reverse.1 hc)

theorem trim_append_left {blanks : List Char} (h : ∀ c ∈ blanks, isBlank c = true)
    (s : List Char) : trim (blanks ++ s) = trim s := by
  rw [trim, trimStart, List.dropWhile_append_of_pos h]
  rfl

theorem trim_append_right {blanks : List Char} (h : ∀ c ∈ blanks, isBlank c = true)
    (s : List Char) : trim (s ++ blanks) = trim s := by
  have hnone : blanks.dropWhile isBlank = [] := List.dropWhile_eq_nil_iff.2 h
  have hreverse : ∀ c ∈ blanks.reverse, isBlank c = true := by
    intro c hc
    exact h c (List.mem_reverse.1 hc)
  rw [trim, trimStart, List.dropWhile_append]
  split
  · next hempty =>
    rw [hnone, trim, trimStart, List.isEmpty_iff.1 hempty]
  · rw [trimEnd, List.reverse_append, List.dropWhile_append_of_pos hreverse]
    rfl

theorem exists_trimEnd_append (s : List Char) :
    ∃ after, s = trimEnd s ++ after ∧ ∀ c ∈ after, isBlank c = true := by
  refine ⟨(s.reverse.takeWhile isBlank).reverse, ?_, ?_⟩
  · rw [trimEnd, ← List.reverse_append, List.takeWhile_append_dropWhile, List.reverse_reverse]
  · intro c hc
    exact List.mem_takeWhile_imp (List.mem_reverse.1 hc)

/-- A text is what is left of it between blanks. -/
theorem exists_append_trim_append (s : List Char) :
    ∃ before after, s = before ++ trim s ++ after ∧
      (∀ c ∈ before, isBlank c = true) ∧ ∀ c ∈ after, isBlank c = true := by
  obtain ⟨after, hstart, hafter⟩ := exists_trimEnd_append (trimStart s)
  refine ⟨s.takeWhile isBlank, after, ?_, ?_, hafter⟩
  · rw [List.append_assoc, trim, ← hstart, trimStart, List.takeWhile_append_dropWhile]
  · intro c hc
    exact List.mem_takeWhile_imp hc

theorem trim_eq_nil_iff {s : List Char} : trim s = [] ↔ ∀ c ∈ s, isBlank c = true := by
  obtain ⟨before, after, hs, hbefore, hafter⟩ := exists_append_trim_append s
  constructor
  · intro h
    rw [hs, h, List.append_nil]
    exact List.forall_mem_append.2 ⟨hbefore, hafter⟩
  · intro h
    have htrim := trim_append_left h []
    rwa [List.append_nil] at htrim

theorem trim_trim (s : List Char) : trim (trim s) = trim s := by
  obtain ⟨before, after, hs, hbefore, hafter⟩ := exists_append_trim_append s
  have htrim := congrArg trim hs
  rw [trim_append_right hafter, trim_append_left hbefore] at htrim
  exact htrim.symm

theorem trim_trimEnd (s : List Char) : trim (trimEnd s) = trim s := by
  obtain ⟨after, hs, hafter⟩ := exists_trimEnd_append s
  conv => rhs; rw [hs, trim_append_right hafter]

theorem head?_trimEnd {s : List Char} (h : trimEnd s ≠ []) : (trimEnd s).head? = s.head? := by
  obtain ⟨after, hs, -⟩ := exists_trimEnd_append s
  conv => rhs; rw [hs, List.head?_append_of_ne_nil _ h]

theorem trimStart_eq_self {s : List Char} (h : ∀ c ∈ s.head?, isBlank c = false) :
    trimStart s = s := by
  cases s with
  | nil => rfl
  | cons c s =>
      have hneg : ¬ isBlank c = true := by simp [h c rfl]
      rw [trimStart, List.dropWhile_cons_of_neg hneg]

theorem trimEnd_append_cons {c : Char} (hc : isBlank c = false) (a b : List Char) :
    trimEnd (a ++ c :: b) = a ++ c :: trimEnd b := by
  have hneg : ¬ isBlank c = true := by simp [hc]
  have hreverse : (a ++ c :: b).reverse = b.reverse ++ c :: a.reverse := by simp
  rw [trimEnd, hreverse, List.dropWhile_append, List.dropWhile_cons_of_neg hneg, trimEnd]
  split
  · next hempty => simp [List.isEmpty_iff.1 hempty]
  · simp

end DataBlock.Text
