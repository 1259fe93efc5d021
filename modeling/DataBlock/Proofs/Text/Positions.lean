import Mathlib.Data.List.Basic
/-!
# Byte positions

A position in a text counts the bytes of the characters before it in UTF-8.  A
text is cut at a position only between two characters; behind a character of one
byte it is cut at the next position as well.
-/

namespace DataBlock.Text

def position? (p : Char → Bool) : List Char → Option Nat
  | [] => none
  | c :: s => if p c then (position? p s).map (c.utf8Size + ·) else some 0

structure CutsAt (s : List Char) (n : Nat) (before after : List Char) : Prop where
  append_eq : before ++ after = s
  bytes_eq : (String.ofList before).utf8ByteSize = n

/-- The positions with pieces are those on the boundary of a character. -/
theorem exists_cutsAt_iff_isValid {s : List Char} {n : Nat} :
    (∃ before after, CutsAt s n before after) ↔ String.Pos.Raw.IsValid (String.ofList s) ⟨n⟩ := by
  rw [String.Pos.Raw.isValid_iff_exists_append]
  constructor
  · rintro ⟨before, after, hs, hn⟩
    refine ⟨String.ofList before, String.ofList after, ?_, ?_⟩
    · rw [← hs, String.ofList_append]
    · rw [← hn]
      rfl
  · rintro ⟨before, after, hs, hn⟩
    refine ⟨before.toList, after.toList, ?_, ?_⟩
    · rw [← String.toList_append, ← hs, String.toList_ofList]
    · rw [String.ofList_toList]
      exact (congrArg String.Pos.Raw.byteIdx hn).symm

theorem utf8ByteSize_ofList_cons (c : Char) (s : List Char) :
    (String.ofList (c :: s)).utf8ByteSize = c.utf8Size + (String.ofList s).utf8ByteSize := by
  rw [← List.singleton_append, String.ofList_append, String.utf8ByteSize_append]
  simp

theorem CutsAt.cons {s before after : List Char} {n : Nat} (h : CutsAt s n before after)
    (c : Char) : CutsAt (c :: s) (c.utf8Size + n) (c :: before) after := by
  refine ⟨?_, ?_⟩
  · rw [List.cons_append, h.append_eq]
  · rw [utf8ByteSize_ofList_cons, h.bytes_eq]

theorem cutsAt_utf8Size (c : Char) (s : List Char) : CutsAt (c :: s) c.utf8Size [c] s := by
  refine ⟨rfl, ?_⟩
  rw [utf8ByteSize_ofList_cons]
  simp

theorem CutsAt.next {s before after : List Char} {n : Nat} {c : Char}
    (h : CutsAt s n before (c :: after)) : CutsAt s (n + c.utf8Size) (before ++ [c]) after := by
  refine ⟨?_, ?_⟩
  · rw [← h.append_eq, List.append_assoc, List.singleton_append]
  · rw [String.ofList_append, String.utf8ByteSize_append, h.bytes_eq, utf8ByteSize_ofList_cons]
    simp

/-- A text is cut at the position of the first character without a property. -/
theorem cutsAt_position? {p : Char → Bool} {s : List Char} {n : Nat}
    (h : position? p s = some n) :
    CutsAt s n (s.takeWhile p) (s.dropWhile p) ∧
      ∃ c rest, s.dropWhile p = c :: rest ∧ p c = false := by
  induction s generalizing n with
  | nil => cases h
  | cons c s ih =>
      rw [position?] at h
      cases hc : p c with
      | true =>
          rw [if_pos hc, Option.map_eq_some_iff] at h
          obtain ⟨m, hm, rfl⟩ := h
          obtain ⟨hcut, hfirst⟩ := ih hm
          rw [List.takeWhile_cons_of_pos hc, List.dropWhile_cons_of_pos hc]
          exact ⟨hcut.cons c, hfirst⟩
      | false =>
          have hneg : ¬ p c = true := by simp [hc]
          rw [if_neg hneg, Option.some.injEq] at h
          rw [List.takeWhile_cons_of_neg hneg, List.dropWhile_cons_of_neg hneg, ← h]
          exact ⟨⟨rfl, rfl⟩, c, s, rfl, hc⟩

/-- A text can be cut before and behind the first character without a property. -/
def CutsAround (p : Char → Bool) (s : List Char) : Prop :=
  ∀ n, position? p s = some n → ∃ c rest, s.dropWhile p = c :: rest ∧
    CutsAt s n (s.takeWhile p) (c :: rest) ∧ CutsAt (c :: rest) 1 [c] rest ∧
      CutsAt s (n + 1) (s.takeWhile p ++ [c]) rest

theorem cutsAround {p : Char → Bool} (hp : ∀ c, p c = false → c.utf8Size = 1) (s : List Char) :
    CutsAround p s := by
  intro n h
  obtain ⟨hcut, c, rest, hrest, hc⟩ := cutsAt_position? h
  rw [hrest] at hcut
  refine ⟨c, rest, hrest, hcut, ?_, ?_⟩
  · rw [← hp c hc]
    exact cutsAt_utf8Size c rest
  · rw [← hp c hc]
    exact hcut.next

theorem utf8Size_of_isAlpha {c : Char} (h : c.isAlpha = true) : c.utf8Size = 1 := by
  rw [Char.utf8Size_eq_one_iff, UInt32.le_iff_toNat_le]
  have hletter : ('A'.val ≤ c.val ∧ c.val ≤ 'Z'.val) ∨ ('a'.val ≤ c.val ∧ c.val ≤ 'z'.val) := by
    change (decide (_ ∧ _) || (decide _ && decide _)) = true at h
    simpa only [Bool.or_eq_true, Bool.and_eq_true, decide_eq_true_eq] using h
  simp only [UInt32.le_iff_toNat_le] at hletter
  have hupper : ('Z' : Char).val.toNat ≤ (127 : UInt32).toNat := by decide
  have hlower : ('z' : Char).val.toNat ≤ (127 : UInt32).toNat := by decide
  rcases hletter with ⟨-, hle⟩ | ⟨-, hle⟩
  · exact Nat.le_trans hle hupper
  · exact Nat.le_trans hle hlower

end DataBlock.Text
