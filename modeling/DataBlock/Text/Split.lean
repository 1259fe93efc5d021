/-!
# Cutting a text at a separator

A text is cut at the first separator, at the last one, at all of them
(`List.splitOn`), or into lines.  The lemmas describe a cut by the pieces put
together again.
-/

namespace DataBlock.Text

def splitFirst? (c : Char) : List Char → Option (List Char × List Char)
  | [] => none
  | d :: s =>
    if d = c then some ([], s)
    else (splitFirst? c s).map fun parts => (d :: parts.1, parts.2)

def splitLast? (c : Char) (s : List Char) : Option (List Char × List Char) :=
  (splitFirst? c s.reverse).map fun parts => (parts.2.reverse, parts.1.reverse)

def dropLast? (c : Char) (s : List Char) : Option (List Char) :=
  if s.getLast? = some c then some s.dropLast else none

def dropStart? : List Char → List Char → Option (List Char)
  | [], s => some s
  | _ :: _, [] => none
  | c :: start, d :: s => if c = d then dropStart? start s else none

/-- A line without the carriage return that belongs to its end. -/
def dropReturn (line : List Char) : List Char :=
  (dropLast? '\r' line).getD line

/-- The lines of a text.  A line feed ends a line, alone or after a carriage
return; the text after the last line feed is a line only if it is not empty. -/
def lines (s : List Char) : List (List Char) :=
  let pieces := s.splitOn '\n'
  pieces.dropLast.map dropReturn ++ pieces.getLast?.toList.filter (· ≠ [])

/-! ## Pieces put together again -/

theorem splitFirst?_eq_some {c : Char} {s a b : List Char}
    (h : splitFirst? c s = some (a, b)) : s = a ++ c :: b ∧ c ∉ a := by
  induction s generalizing a with
  | nil => simp [splitFirst?] at h
  | cons d s ih =>
    by_cases hd : d = c
    · obtain ⟨rfl, rfl⟩ : [] = a ∧ s = b := by simpa [splitFirst?, hd] using h
      simp [hd]
    · simp only [splitFirst?, if_neg hd, Option.map_eq_some_iff] at h
      obtain ⟨⟨a', b'⟩, hs, heq⟩ := h
      obtain ⟨rfl, rfl⟩ : d :: a' = a ∧ b' = b := by simpa using heq
      obtain ⟨rfl, hmem⟩ := ih hs
      exact ⟨rfl, by simp [hmem, Ne.symm hd]⟩

theorem splitFirst?_append {c : Char} {a : List Char} (b : List Char)
    (h : c ∉ a) : splitFirst? c (a ++ c :: b) = some (a, b) := by
  induction a with
  | nil => simp [splitFirst?]
  | cons d a ih =>
    have hd : d ≠ c := fun heq => h (by simp [heq])
    have ha : c ∉ a := fun hmem => h (by simp [hmem])
    simp [splitFirst?, hd, ih ha]

theorem splitFirst?_eq_none_iff {c : Char} {s : List Char} :
    splitFirst? c s = none ↔ c ∉ s := by
  induction s with
  | nil => simp [splitFirst?]
  | cons d s ih =>
    by_cases hd : d = c
    · simp [splitFirst?, hd]
    · simp [splitFirst?, hd, Ne.symm hd, ih]

theorem splitLast?_eq_some {c : Char} {s a b : List Char}
    (h : splitLast? c s = some (a, b)) : s = a ++ c :: b ∧ c ∉ b := by
  simp only [splitLast?, Option.map_eq_some_iff] at h
  obtain ⟨⟨x, y⟩, hxy, heq⟩ := h
  obtain ⟨rfl, rfl⟩ : y.reverse = a ∧ x.reverse = b := by simpa using heq
  obtain ⟨hs, hmem⟩ := splitFirst?_eq_some hxy
  refine ⟨?_, by simpa using hmem⟩
  have := congrArg List.reverse hs
  simpa using this

/-- What stands before the last separator is shorter than the text. -/
theorem length_lt_of_splitLast? {c : Char} {s a b : List Char}
    (h : splitLast? c s = some (a, b)) : a.length < s.length := by
  rw [(splitLast?_eq_some h).1]
  simp

theorem length_lt_of_dropLast? {c : Char} {s a : List Char}
    (h : dropLast? c s = some a) : a.length < s.length := by
  unfold dropLast? at h
  split at h
  · next hlast =>
    obtain rfl : s.dropLast = a := by simpa using h
    cases s with
    | nil => simp at hlast
    | cons d s => simp
  · simp at h

theorem dropStart?_append (start s : List Char) :
    dropStart? start (start ++ s) = some s := by
  induction start with
  | nil => simp [dropStart?]
  | cons c start ih => simp [dropStart?, ih]

theorem eq_append_of_dropStart? {start s rest : List Char}
    (h : dropStart? start s = some rest) : s = start ++ rest := by
  fun_induction dropStart? start s with
  | case1 => simpa using h
  | case2 => simp at h
  | case3 c start s ih => simp [ih h]
  | case4 => simp at h

end DataBlock.Text
