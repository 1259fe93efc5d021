import DataBlock.Proofs.Tag.Grammar
import DataBlock.Scenario.Basic
import Mathlib.Data.List.Forall2
/-!
# Pairs as they are written

A pair is written as an address and an expectation, alone or on a line with a
bar between them.  Blanks around either do not count, nor do lines with another
number of bars.  A text gives the pairs of its lines, or the error of the first
line whose pair cannot be read.
-/

namespace DataBlock.Scenario

/-- An address and an expectation, still to be read. -/
structure Written where
  address : String
  expected : String
  trimmed : Text.trim address.toList = address.toList

namespace Written

def of (address expected : List Char) : Written :=
  ⟨String.ofList (Text.trim address), String.ofList (Text.trim expected), by
    rw [String.toList_ofList, Text.trim_trim]⟩

/-- What is written on a line with exactly one bar. -/
def onLine? (line : List Char) : Option Written :=
  match line.splitOn '|' with
  | [address, expected] => some (of address expected)
  | _ => none

def ofText (text : String) : List Written :=
  (Text.lines text.toList).filterMap onLine?

def read (w : Written) : Except Error Pair := do
  let tag ← (Tag.parse w.address).mapError .codec
  let expected ← Expectation.parse w.expected
  return ⟨w.address, tag, expected⟩

theorem pair_read (address expected : List Char) :
    Pair.read address expected = (of address expected).read := rfl

theorem read_eq_ok_iff {w : Written} {pair : Pair} :
    w.read = .ok pair ↔
      pair.address = w.address ∧ Tag.parse w.address = .ok pair.tag ∧
        Expectation.parse w.expected = .ok pair.expected := by
  rcases pair with ⟨address, tag, expected⟩
  rw [read]
  rcases Tag.parse w.address with e | found
  · simp [Except.mapError, bind, Except.bind]
  · rcases Expectation.parse w.expected with e | wanted
    · simp [Except.mapError, bind, Except.bind]
    · simp [Except.mapError, bind, Except.bind, pure, Except.pure, eq_comm]

/-! ## Lines -/

theorem onLine?_eq_some_iff {line : List Char} {w : Written} :
    onLine? line = some w ↔
      ∃ address expected, line = address ++ '|' :: expected ∧ '|' ∉ address ∧ '|' ∉ expected ∧
        of address expected = w := by
  unfold onLine?
  constructor
  · intro h
    split at h
    · next address expected hsplit =>
      obtain ⟨hline, haddress, hexpected⟩ := Text.splitOn_eq_pair_iff.1 hsplit
      exact ⟨address, expected, hline, haddress, hexpected, Option.some.inj h⟩
    · cases h
  · rintro ⟨address, expected, hline, haddress, hexpected, hw⟩
    rw [Text.splitOn_eq_pair_iff.2 ⟨hline, haddress, hexpected⟩, ← hw]

theorem of_append {before after : List Char} (hbefore : ∀ c ∈ before, Text.isBlank c = true)
    (hafter : ∀ c ∈ after, Text.isBlank c = true) (address expected : List Char) :
    of (before ++ address) (expected ++ after) = of address expected := by
  simp only [of, Text.trim_append_left hbefore, Text.trim_append_right hafter]

/-- Blanks around a line change nothing of what is written on it. -/
theorem onLine?_trim (line : List Char) : onLine? (Text.trim line) = onLine? line := by
  obtain ⟨before, after, hline, hbefore, hafter⟩ := Text.exists_append_trim_append line
  have hbar : Text.isBlank '|' = false := by decide
  have hfree : ∀ {blanks : List Char}, (∀ c ∈ blanks, Text.isBlank c = true) → '|' ∉ blanks := by
    intro blanks hblanks hmem
    rw [hblanks _ hmem] at hbar
    contradiction
  apply Option.ext
  intro w
  rw [onLine?_eq_some_iff, onLine?_eq_some_iff]
  constructor
  · rintro ⟨address, expected, htrim, haddress, hexpected, hw⟩
    refine ⟨before ++ address, expected ++ after, ?_, ?_, ?_, ?_⟩
    · rw [hline, htrim]
      simp
    · simp [hfree hbefore, haddress]
    · simp [hfree hafter, hexpected]
    · rw [of_append hbefore hafter, hw]
  · rintro ⟨address, expected, hwhole, haddress, hexpected, hw⟩
    -- the bar lies in what is left of the line, and cuts it where it cuts the line
    have hmem : '|' ∈ Text.trim line := by
      have hin : '|' ∈ line := by simp [hwhole]
      rw [hline] at hin
      simpa [hfree hbefore, hfree hafter] using hin
    obtain ⟨x, y, htrim, hx⟩ := List.eq_append_cons_of_mem hmem
    have hcut : (before ++ x) ++ '|' :: (y ++ after) = address ++ '|' :: expected := by
      rw [← hwhole, hline, htrim]
      simp
    have hparts := Text.splitFirst?_append (y ++ after) (a := before ++ x) (c := '|')
      (by simp [hfree hbefore, hx])
    rw [hcut, Text.splitFirst?_append _ haddress, Option.some.injEq, Prod.mk.injEq] at hparts
    obtain ⟨rfl, rfl⟩ := hparts
    refine ⟨x, y, htrim, hx, ?_, ?_⟩
    · intro hy
      exact hexpected (List.mem_append_left _ hy)
    · rw [← hw, of_append hbefore hafter]

end Written

/-! ## Reading line after line -/

section

variable {number : Nat} {line : List Char} {lines : List (List Char)} {w : Written}

theorem readLines_cons_of_none (h : Written.onLine? line = none) :
    readLines number (line :: lines) = readLines (number + 1) lines := by
  rw [← Written.onLine?_trim] at h
  rw [readLines]
  split
  · next hsplit => simp [Written.onLine?, hsplit] at h
  · rfl

theorem readLines_cons_of_some (h : Written.onLine? line = some w) :
    readLines number (line :: lines) =
      match w.read with
      | .error cause => .error (atLine number (Text.trim line) cause)
      | .ok pair => (readLines (number + 1) lines).map (pair :: ·) := by
  rw [← Written.onLine?_trim] at h
  rw [readLines]
  split
  · next address expected hsplit =>
    have hw : Written.of address expected = w := by simpa [Written.onLine?, hsplit] using h
    rw [Written.pair_read, hw]
    cases w.read <;> rfl
  · next hother =>
    unfold Written.onLine? at h
    split at h
    · next address expected hsplit => exact absurd hsplit (hother address expected)
    · cases h

end

/-- The first of the lines with a pair that cannot be read: how many lines come
before it, the line, and what keeps it from being read. -/
inductive FirstFault : List (List Char) → Nat → List Char → Error → Prop
  | here {line : List Char} {lines : List (List Char)} {w : Written} {cause : Error}
      (hline : Written.onLine? line = some w) (hread : w.read = .error cause) :
      FirstFault (line :: lines) 0 line cause
  | later {first line : List Char} {lines : List (List Char)} {n : Nat} {cause : Error}
      (hfirst : ∀ w, Written.onLine? first = some w → ∃ pair, w.read = .ok pair)
      (hrest : FirstFault lines n line cause) :
      FirstFault (first :: lines) (n + 1) line cause

/-- Lines are read as the pairs of all that is written on them. -/
theorem readLines_eq_ok_iff {number : Nat} {lines : List (List Char)} {pairs : List Pair} :
    readLines number lines = .ok pairs ↔
      List.Forall₂ (fun w pair => Written.read w = .ok pair) (lines.filterMap Written.onLine?)
        pairs := by
  induction lines generalizing number pairs with
  | nil =>
      rw [readLines, List.filterMap_nil, List.forall₂_nil_left_iff, Except.ok.injEq, eq_comm]
  | cons line lines ih =>
      cases hline : Written.onLine? line with
      | none => rw [readLines_cons_of_none hline, List.filterMap_cons_none hline, ih]
      | some w =>
          rw [readLines_cons_of_some hline, List.filterMap_cons_some hline,
            List.forall₂_cons_left_iff]
          cases w.read with
          | error cause => simp
          | ok pair =>
              simp only [map_eq_ok_iff, ih, Except.ok.injEq]
              constructor
              · rintro ⟨rest, hrest, rfl⟩
                exact ⟨pair, rest, rfl, hrest, rfl⟩
              · rintro ⟨_, rest, rfl, hrest, rfl⟩
                exact ⟨rest, hrest, rfl⟩

theorem FirstFault.readLines_eq {lines : List (List Char)} {n : Nat} {line : List Char}
    {cause : Error} (h : FirstFault lines n line cause) (number : Nat) :
    readLines number lines = .error (atLine (number + n) (Text.trim line) cause) := by
  induction h generalizing number with
  | here hline hread =>
      rw [readLines_cons_of_some hline, hread]
      rfl
  | @later first line lines n cause hfirst hrest ih =>
      have hnext := ih (number + 1)
      rw [Nat.add_right_comm, Nat.add_assoc] at hnext
      cases hline : Written.onLine? first with
      | none => rw [readLines_cons_of_none hline, hnext]
      | some w =>
          obtain ⟨pair, hread⟩ := hfirst w hline
          rw [readLines_cons_of_some hline, hread, hnext]
          rfl

theorem exists_firstFault {number : Nat} {lines : List (List Char)} {e : Error}
    (h : readLines number lines = .error e) : ∃ n line cause, FirstFault lines n line cause := by
  induction lines generalizing number e with
  | nil => cases h
  | cons first lines ih =>
      cases hline : Written.onLine? first with
      | none =>
          rw [readLines_cons_of_none hline] at h
          obtain ⟨n, line, cause, hrest⟩ := ih h
          exact ⟨n + 1, line, cause, .later (by simp [hline]) hrest⟩
      | some w =>
          rw [readLines_cons_of_some hline] at h
          cases hread : w.read with
          | error cause => exact ⟨0, first, cause, .here hline hread⟩
          | ok pair =>
              cases hlater : readLines (number + 1) lines with
              | ok pairs => simp [hread, hlater, Except.map] at h
              | error e' =>
                  obtain ⟨n, line, cause, hrest⟩ := ih hlater
                  refine ⟨n + 1, line, cause, .later ?_ hrest⟩
                  intro w' hw'
                  rw [hline, Option.some.injEq] at hw'
                  exact ⟨pair, hw' ▸ hread⟩

/-- The error of lines is that of the first one whose pair cannot be read. -/
theorem readLines_eq_error_iff {number : Nat} {lines : List (List Char)} {e : Error} :
    readLines number lines = .error e ↔
      ∃ n line cause, FirstFault lines n line cause ∧
        e = atLine (number + n) (Text.trim line) cause := by
  constructor
  · intro h
    obtain ⟨n, line, cause, hfault⟩ := exists_firstFault h
    rw [hfault.readLines_eq, Except.error.injEq] at h
    exact ⟨n, line, cause, hfault, h.symm⟩
  · rintro ⟨n, line, cause, hfault, rfl⟩
    exact hfault.readLines_eq number

end DataBlock.Scenario
