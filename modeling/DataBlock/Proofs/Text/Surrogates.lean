import DataBlock.Text.Utf16
import DataBlock.Proofs.Results
import Mathlib.Data.List.Basic
import Mathlib.Data.Nat.Find
/-!
# Surrogates in pairs

The units of a text are read back as the text, and no other units are.  Units
are read as a text unless one of them is a surrogate without its partner: a
high one that no low one follows, or a low one that follows no high one.  The
first such unit is named.
-/

namespace DataBlock.Text.Utf16

def isSurrogate (u : UInt16) : Bool := isHigh u || isLow u

/-- The unit at a place is a surrogate outside a pair. -/
def Unpaired (units : List UInt16) (i : Nat) : Prop :=
  ∃ u, units[i]? = some u ∧
    (isHigh u = true ∧ units[i + 1]?.any isLow = false ∨
      isLow u = true ∧ (i = 0 ∨ units[i - 1]?.any isHigh = false))

def FirstUnpaired (units : List UInt16) (u : UInt16) : Prop :=
  ∃ i, units[i]? = some u ∧ Unpaired units i ∧ ∀ j < i, ¬ Unpaired units j

theorem isSurrogate_iff {u : UInt16} :
    isSurrogate u = true ↔ 0xD800 ≤ u.toNat ∧ u.toNat ≤ 0xDFFF := by
  simp only [isSurrogate, isHigh, isLow, Bool.or_eq_true, Bool.and_eq_true, decide_eq_true_eq,
    UInt16.le_iff_toNat_le]
  change (0xD800 ≤ u.toNat ∧ u.toNat ≤ 0xDBFF) ∨ (0xDC00 ≤ u.toNat ∧ u.toNat ≤ 0xDFFF) ↔ _
  omega

theorem isLow_eq_false_of_isHigh {u : UInt16} (h : isHigh u = true) : isLow u = false := by
  simp only [isHigh, isLow, Bool.and_eq_true, Bool.and_eq_false_iff, decide_eq_true_eq,
    decide_eq_false_iff_not, UInt16.le_iff_toNat_le] at h ⊢
  change 0xD800 ≤ u.toNat ∧ u.toNat ≤ 0xDBFF at h
  change ¬ 0xDC00 ≤ u.toNat ∨ ¬ u.toNat ≤ 0xDFFF
  omega

theorem scalar?_of_isSurrogate {u : UInt16} (h : isSurrogate u = true) : scalar? u = none :=
  if_pos h

theorem scalar?_of_not_isSurrogate {u : UInt16} (h : isSurrogate u = false) :
    scalar? u = some (Char.ofNat u.toNat) :=
  if_neg (Bool.eq_false_iff.1 h)

/-! ## Reading one character -/

theorem decode_cons_of_scalar? {u : UInt16} {c : Char} (h : scalar? u = some c)
    (rest : List UInt16) : decode (u :: rest) = (decode rest).map (c :: ·) := by
  cases rest with
  | nil => simp [decode, h, Except.map]
  | cons v rest => simp [decode, h]

theorem decode_cons_cons_of_pair {u v : UInt16} (hu : isHigh u = true) (hv : isLow v = true)
    (rest : List UInt16) : decode (u :: v :: rest) = (decode rest).map (pair u v :: ·) := by
  have hnone : scalar? u = none := by simp [scalar?, hu]
  simp [decode, hnone, hu, hv]

/-! ## Units of a text -/

theorem toNat_lt_or_lt_toNat (c : Char) : c.toNat < 0xD800 ∨ 0xDFFF < c.toNat := by
  rcases c.valid with h | h
  · exact .inl h
  · exact .inr h.1

theorem scalar?_ofNat_toNat {c : Char} (h : c.toNat < 0x10000) :
    scalar? (UInt16.ofNat c.toNat) = some c := by
  have hu : (UInt16.ofNat c.toNat).toNat = c.toNat := UInt16.toNat_ofNat_of_lt' h
  have hplain : isSurrogate (UInt16.ofNat c.toNat) = false := by
    rw [← Bool.not_eq_true, isSurrogate_iff, hu]
    have hc := toNat_lt_or_lt_toNat c
    omega
  rw [scalar?_of_not_isSurrogate hplain, hu, Char.ofNat_toNat]

theorem pair_of_toNat {c : Char} {n : Nat} (h : c.toNat = 0x10000 + n) :
    isHigh (UInt16.ofNat (0xD800 + n / 0x400)) = true ∧
    isLow (UInt16.ofNat (0xDC00 + n % 0x400)) = true ∧
    pair (UInt16.ofNat (0xD800 + n / 0x400)) (UInt16.ofNat (0xDC00 + n % 0x400)) = c := by
  have hn : n < 0x100000 := by
    have hc : c.toNat < 0x110000 := by
      rcases c.valid with hsmall | hlarge
      · exact Nat.lt_trans hsmall (by decide)
      · exact hlarge.2
    omega
  have hhigh : (UInt16.ofNat (0xD800 + n / 0x400)).toNat = 0xD800 + n / 0x400 := by
    apply UInt16.toNat_ofNat_of_lt'
    rw [UInt16.size]
    omega
  have hlow : (UInt16.ofNat (0xDC00 + n % 0x400)).toNat = 0xDC00 + n % 0x400 := by
    apply UInt16.toNat_ofNat_of_lt'
    rw [UInt16.size]
    omega
  refine ⟨?_, ?_, ?_⟩
  · simp only [isHigh, Bool.and_eq_true, decide_eq_true_eq, UInt16.le_iff_toNat_le, hhigh]
    change 0xD800 ≤ _ ∧ _ ≤ 0xDBFF
    omega
  · simp only [isLow, Bool.and_eq_true, decide_eq_true_eq, UInt16.le_iff_toNat_le, hlow]
    change 0xDC00 ≤ _ ∧ _ ≤ 0xDFFF
    omega
  · have hsum : 0x10000 + (0xD800 + n / 0x400 - 0xD800) * 0x400 +
        (0xDC00 + n % 0x400 - 0xDC00) = c.toNat := by omega
    rw [pair, hhigh, hlow, hsum, Char.ofNat_toNat]

theorem decode_encodeChar_append (c : Char) (rest : List UInt16) :
    decode (encodeChar c ++ rest) = (decode rest).map (c :: ·) := by
  rw [encodeChar]
  split
  · next hlt =>
    exact decode_cons_of_scalar? (scalar?_ofNat_toNat hlt) rest
  · next hge =>
    have hc : c.toNat = 0x10000 + (c.toNat - 0x10000) := by omega
    rcases pair_of_toNat hc with ⟨hhigh, hlow, hpair⟩
    simp only [List.cons_append, List.nil_append]
    rw [decode_cons_cons_of_pair hhigh hlow, hpair]

/-- The units of a text are read as the text, whatever units follow. -/
theorem decode_encode_append (s : List Char) (rest : List UInt16) :
    decode (encode s ++ rest) = (decode rest).map (s ++ ·) := by
  induction s with
  | nil =>
      change decode rest = _
      cases decode rest <;> rfl
  | cons c s ih =>
      have hcons : encode (c :: s) = encodeChar c ++ encode s := rfl
      rw [hcons, List.append_assoc, decode_encodeChar_append, ih]
      cases decode rest <;> rfl

theorem decode_encode (s : List Char) : decode (encode s) = .ok s := by
  have happend := decode_encode_append s []
  rw [List.append_nil] at happend
  rw [happend]
  simp [decode, Except.map]

/-! ## Units that are read as a text -/

theorem toNat_ofNat_of_isValidChar {n : Nat} (h : n.isValidChar) : (Char.ofNat n).toNat = n := by
  have hchar : Char.ofNat n = Char.ofNatAux n h := dif_pos h
  rw [hchar]
  rfl

theorem encodeChar_of_scalar? {u : UInt16} {c : Char} (h : scalar? u = some c) :
    encodeChar c = [u] := by
  cases hu : isSurrogate u with
  | true =>
      rw [scalar?_of_isSurrogate hu] at h
      contradiction
  | false =>
      rw [scalar?_of_not_isSurrogate hu, Option.some.injEq] at h
      have hplain : ¬ (0xD800 ≤ u.toNat ∧ u.toNat ≤ 0xDFFF) := by
        rw [← isSurrogate_iff, hu]
        exact Bool.false_ne_true
      have hlt := u.toNat_lt
      have hvalid : u.toNat.isValidChar := by
        rw [Nat.isValidChar]
        omega
      have hc : c.toNat = u.toNat := by rw [← h, toNat_ofNat_of_isValidChar hvalid]
      rw [encodeChar, hc, if_pos (by omega), UInt16.ofNat_toNat]

theorem encodeChar_pair {high low : UInt16} (hhigh : isHigh high = true)
    (hlow : isLow low = true) : encodeChar (pair high low) = [high, low] := by
  simp only [isHigh, isLow, Bool.and_eq_true, decide_eq_true_eq,
    UInt16.le_iff_toNat_le] at hhigh hlow
  change 0xD800 ≤ high.toNat ∧ high.toNat ≤ 0xDBFF at hhigh
  change 0xDC00 ≤ low.toNat ∧ low.toNat ≤ 0xDFFF at hlow
  have hvalid : (0x10000 + (high.toNat - 0xD800) * 0x400 + (low.toNat - 0xDC00)).isValidChar := by
    rw [Nat.isValidChar]
    omega
  have hc := toNat_ofNat_of_isValidChar hvalid
  have hfirst : 0xD800 + (0x10000 + (high.toNat - 0xD800) * 0x400 + (low.toNat - 0xDC00) -
      0x10000) / 0x400 = high.toNat := by omega
  have hsecond : 0xDC00 + (0x10000 + (high.toNat - 0xD800) * 0x400 + (low.toNat - 0xDC00) -
      0x10000) % 0x400 = low.toNat := by omega
  rw [encodeChar, pair, hc, if_neg (by omega)]
  simp only [hfirst, hsecond, UInt16.ofNat_toNat]

/-! ## Units of no text -/

theorem unpaired_cons_add_two (u : UInt16) (rest : List UInt16) (i : Nat) :
    Unpaired (u :: rest) (i + 2) ↔ Unpaired rest (i + 1) := by
  simp [Unpaired]

theorem unpaired_cons_succ {u : UInt16} (hu : isHigh u = false) (rest : List UInt16) (i : Nat) :
    Unpaired (u :: rest) (i + 1) ↔ Unpaired rest i := by
  cases i with
  | zero => simp [Unpaired, hu]
  | succ i => exact unpaired_cons_add_two u rest i

/-- Units in front that are no surrogates outside a pair, and leave those behind
them alone, do not count. -/
theorem firstUnpaired_append {before rest : List UInt16} {u : UInt16}
    (hbefore : ∀ i < before.length, ¬ Unpaired (before ++ rest) i)
    (hrest : ∀ i, Unpaired (before ++ rest) (before.length + i) ↔ Unpaired rest i) :
    FirstUnpaired (before ++ rest) u ↔ FirstUnpaired rest u := by
  constructor
  · rintro ⟨i, hu, hi, hfirst⟩
    obtain ⟨k, rfl⟩ : ∃ k, i = before.length + k := by
      apply Nat.exists_eq_add_of_le
      by_contra hlt
      exact hbefore i (Nat.lt_of_not_le hlt) hi
    refine ⟨k, ?_, (hrest k).1 hi, ?_⟩
    · rwa [List.getElem?_append_right (Nat.le_add_right _ _), Nat.add_sub_cancel_left] at hu
    · intro j hj hunpaired
      exact hfirst _ (Nat.add_lt_add_left hj _) ((hrest j).2 hunpaired)
  · rintro ⟨k, hu, hk, hfirst⟩
    refine ⟨before.length + k, ?_, (hrest k).2 hk, ?_⟩
    · rwa [List.getElem?_append_right (Nat.le_add_right _ _), Nat.add_sub_cancel_left]
    · intro j hj hunpaired
      by_cases hlt : j < before.length
      · exact hbefore j hlt hunpaired
      · obtain ⟨m, rfl⟩ := Nat.exists_eq_add_of_le (Nat.le_of_not_lt hlt)
        exact hfirst m (Nat.lt_of_add_lt_add_left hj) ((hrest m).1 hunpaired)

theorem firstUnpaired_cons {v : UInt16} (h : isSurrogate v = false) (rest : List UInt16)
    (u : UInt16) : FirstUnpaired (v :: rest) u ↔ FirstUnpaired rest u := by
  rw [isSurrogate, Bool.or_eq_false_iff] at h
  apply @firstUnpaired_append [v]
  · intro i hi hunpaired
    obtain rfl : i = 0 := Nat.lt_one_iff.1 hi
    simp [Unpaired, h] at hunpaired
  · intro i
    rw [List.length_singleton, Nat.add_comm]
    exact unpaired_cons_succ h.1 rest i

theorem firstUnpaired_cons_cons {v w : UInt16} (hv : isHigh v = true) (hw : isLow w = true)
    (rest : List UInt16) (u : UInt16) :
    FirstUnpaired (v :: w :: rest) u ↔ FirstUnpaired rest u := by
  have hw' : isHigh w = false := by
    rw [← Bool.not_eq_true]
    intro hhigh
    rw [isLow_eq_false_of_isHigh hhigh] at hw
    contradiction
  apply @firstUnpaired_append [v, w]
  · intro i hi hunpaired
    match i, hi, hunpaired with
    | 0, _, hunpaired => simp [Unpaired, hw, isLow_eq_false_of_isHigh hv] at hunpaired
    | 1, _, hunpaired => simp [Unpaired, hv, hw'] at hunpaired
  · intro i
    have htwo : [v, w].length + i = i + 2 := Nat.add_comm 2 i
    rw [htwo]
    exact (unpaired_cons_add_two v (w :: rest) i).trans (unpaired_cons_succ hw' rest i)

theorem unpaired_zero {u : UInt16} {rest : List UInt16} (hu : isSurrogate u = true)
    (hrest : rest.head?.any isLow = false ∨ isHigh u = false) : Unpaired (u :: rest) 0 := by
  refine ⟨u, rfl, ?_⟩
  rw [isSurrogate, Bool.or_eq_true] at hu
  rcases hu with hhigh | hlow
  · rcases hrest with hnext | hnot
    · left
      exact ⟨hhigh, by simpa [List.head?_eq_getElem?] using hnext⟩
    · rw [hhigh] at hnot
      contradiction
  · exact .inr ⟨hlow, .inl rfl⟩

theorem decode_cons_of_unpaired {u : UInt16} {rest : List UInt16} (hu : isSurrogate u = true)
    (hrest : rest.head?.any isLow = false ∨ isHigh u = false) :
    decode (u :: rest) = .error u := by
  have hnone := scalar?_of_isSurrogate hu
  cases rest with
  | nil => simp [decode, hnone]
  | cons v rest =>
      have hpair : (isHigh u && isLow v) = false := by
        rw [Bool.and_eq_false_iff]
        exact hrest.symm
      simp [decode, hnone, hpair]

theorem firstUnpaired_of_unpaired_zero {v : UInt16} {rest : List UInt16}
    (h : Unpaired (v :: rest) 0) (u : UInt16) : FirstUnpaired (v :: rest) u ↔ v = u := by
  constructor
  · rintro ⟨i, hu, -, hfirst⟩
    obtain rfl : i = 0 := by
      by_contra hi
      exact hfirst 0 (Nat.pos_of_ne_zero hi) h
    simpa using hu
  · rintro rfl
    exact ⟨0, rfl, h, by simp⟩

/-- What reading gives, by the way the units begin: a unit that is a character,
two that are one together, or a surrogate outside a pair. -/
theorem decode_spec (units : List UInt16) :
    (∀ s, decode units = .ok s → encode s = units) ∧
    ∀ u, decode units = .error u ↔ FirstUnpaired units u := by
  match units with
  | [] => simp [decode, encode, FirstUnpaired]
  | v :: rest =>
    cases hv : isSurrogate v with
    | false =>
      obtain ⟨hok, herror⟩ := decode_spec rest
      have hchar := scalar?_of_not_isSurrogate hv
      rw [decode_cons_of_scalar? hchar]
      constructor
      · intro s hs
        obtain ⟨text, htext, rfl⟩ := map_eq_ok_iff.1 hs
        change encodeChar _ ++ encode text = _
        rw [encodeChar_of_scalar? hchar, hok text htext]
        rfl
      · intro u
        rw [map_eq_error_iff, herror, firstUnpaired_cons hv]
    | true =>
      by_cases hrest : rest.head?.any isLow = false ∨ isHigh v = false
      · rw [decode_cons_of_unpaired hv hrest]
        simp [firstUnpaired_of_unpaired_zero (unpaired_zero hv hrest)]
      · match rest with
        | [] => simp at hrest
        | w :: rest =>
          have hpair : isLow w = true ∧ isHigh v = true := by simpa using hrest
          obtain ⟨hok, herror⟩ := decode_spec rest
          rw [decode_cons_cons_of_pair hpair.2 hpair.1]
          constructor
          · intro s hs
            obtain ⟨text, htext, rfl⟩ := map_eq_ok_iff.1 hs
            change encodeChar _ ++ encode text = _
            rw [encodeChar_pair hpair.2 hpair.1, hok text htext]
            rfl
          · intro u
            rw [map_eq_error_iff, herror, firstUnpaired_cons_cons hpair.2 hpair.1]

/-- Units are read as a text exactly if they are the units of the text. -/
theorem decode_eq_ok_iff {units : List UInt16} {s : List Char} :
    decode units = .ok s ↔ encode s = units := by
  constructor
  · exact (decode_spec units).1 s
  · rintro rfl
    exact decode_encode s

/-- The unit refused is the first surrogate outside a pair. -/
theorem decode_eq_error_iff {units : List UInt16} {u : UInt16} :
    decode units = .error u ↔ FirstUnpaired units u :=
  (decode_spec units).2 u

theorem exists_firstUnpaired_iff {units : List UInt16} :
    (∃ u, FirstUnpaired units u) ↔ ∃ i, Unpaired units i := by
  constructor
  · rintro ⟨u, i, -, hi, -⟩
    exact ⟨i, hi⟩
  · intro h
    classical
    obtain ⟨u, hu, -⟩ := Nat.find_spec h
    exact ⟨u, Nat.find h, hu, Nat.find_spec h, fun j hj => Nat.find_min h hj⟩

/-- Units are refused exactly if one of them is a surrogate outside a pair. -/
theorem exists_decode_eq_error_iff (units : List UInt16) :
    (∃ u, decode units = .error u) ↔ ∃ i, Unpaired units i := by
  simp only [decode_eq_error_iff, exists_firstUnpaired_iff]

/-! ## Units cut off -/

theorem encodeChar_cases (c : Char) :
    (∃ u, encodeChar c = [u]) ∨
      ∃ high low, isHigh high = true ∧ encodeChar c = [high, low] := by
  rw [encodeChar]
  split
  · exact .inl ⟨_, rfl⟩
  · next hge =>
    have hc : c.toNat = 0x10000 + (c.toNat - 0x10000) := by omega
    exact .inr ⟨_, _, (pair_of_toNat hc).1, rfl⟩

/-- The first units of a text are those of a text it begins with, except for a
last one that is the first of two. -/
theorem take_encode (s : List Char) (n : Nat) :
    ∃ kept, kept <+: s ∧
      ((encode s).take n = encode kept ∨
        ∃ u, isHigh u = true ∧ (encode s).take n = encode kept ++ [u]) := by
  induction s generalizing n with
  | nil => exact ⟨[], List.nil_prefix, .inl (by simp [encode])⟩
  | cons c s ih =>
      have hcons : ∀ kept, encode (c :: kept) = encodeChar c ++ encode kept := fun _ => rfl
      have hkeep : ∀ m, (encodeChar c).length + m = n →
          (encode (c :: s)).take n = encodeChar c ++ (encode s).take m := by
        rintro m rfl
        rw [hcons, List.take_length_add_append]
      by_cases hlength : (encodeChar c).length ≤ n
      · obtain ⟨kept, hprefix, hkept⟩ := ih (n - (encodeChar c).length)
        refine ⟨c :: kept, (List.prefix_cons_inj c).2 hprefix, ?_⟩
        rw [hkeep _ (Nat.add_sub_cancel' hlength)]
        rcases hkept with htake | ⟨u, hu, htake⟩
        · exact .inl (by rw [htake, hcons])
        · exact .inr ⟨u, hu, by rw [htake, hcons, List.append_assoc]⟩
      · refine ⟨[], List.nil_prefix, ?_⟩
        rcases encodeChar_cases c with ⟨u, hc⟩ | ⟨high, low, hhigh, hc⟩
        · rw [hc, List.length_singleton] at hlength
          obtain rfl : n = 0 := by omega
          exact .inl rfl
        · rw [hc, List.length_cons, List.length_singleton] at hlength
          obtain rfl | rfl : n = 0 ∨ n = 1 := by omega
          · exact .inl rfl
          · exact .inr ⟨high, hhigh, by rw [hcons, hc]; rfl⟩

/-- A text never ends in the first unit of two. -/
theorem isHigh_getLast?_encode {s : List Char} {u : UInt16} (h : (encode s).getLast? = some u) :
    isHigh u = false := by
  by_contra hhigh
  obtain ⟨before, hbefore⟩ := List.getLast?_eq_some_iff.1 h
  have hunpaired : Unpaired (encode s) before.length := by
    rw [hbefore]
    exact ⟨u, by simp, .inl ⟨by simpa using hhigh, by simp⟩⟩
  obtain ⟨v, hv⟩ := (exists_decode_eq_error_iff (encode s)).2 ⟨_, hunpaired⟩
  rw [decode_encode] at hv
  contradiction

end DataBlock.Text.Utf16
