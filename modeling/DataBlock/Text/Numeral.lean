/-!
# Decimal numerals

A numeral is one ASCII digit or more; leading zeros are allowed.  Readers that
take a sign say so.  Every reader takes the range of its result, so that a
numeral too large for its purpose is refused and never reduced.
-/

namespace DataBlock.Text

def numeral? (s : List Char) : Option Nat :=
  if s ≠ [] ∧ s.all Char.isDigit then some (Nat.ofDigitChars 10 s 0) else none

def numeralBelow? (bound : Nat) (s : List Char) : Option Nat :=
  (numeral? s).filter (· < bound)

/-- The number of a numeral below `bound`, which may follow a plus sign. -/
def natural? (bound : Nat) : List Char → Option Nat
  | '+' :: s => numeralBelow? bound s
  | s => numeralBelow? bound s

def signed? : List Char → Option Int
  | '-' :: s => (numeral? s).map fun n => -(n : Int)
  | '+' :: s => (numeral? s).map Int.ofNat
  | s => (numeral? s).map Int.ofNat

/-- The number of a signed numeral from `low` to `high`, both included.  A
minus sign is refused where no negative number is in range. -/
def integer? (low high : Int) (s : List Char) : Option Int :=
  if 0 ≤ low ∧ s.head? = some '-' then none
  else (signed? s).filter fun n => low ≤ n ∧ n ≤ high

def padded (width n : Nat) : List Char :=
  let digits := Nat.toDigits 10 n
  List.replicate (width - digits.length) '0' ++ digits

/-! ## Reading what is printed -/

theorem numeral?_toDigits (n : Nat) : numeral? (Nat.toDigits 10 n) = some n := by
  have hne : Nat.toDigits 10 n ≠ [] := by
    intro h
    have := @Nat.length_toDigits_pos 10 n
    simp [h] at this
  have hall : (Nat.toDigits 10 n).all Char.isDigit = true := by
    simp only [List.all_eq_true]
    exact fun c hc => Nat.isDigit_of_mem_toDigits (by decide) (by decide) hc
  rw [numeral?, if_pos ⟨hne, hall⟩, Nat.ofDigitChars_toDigits (by decide) (by decide)]

end DataBlock.Text
