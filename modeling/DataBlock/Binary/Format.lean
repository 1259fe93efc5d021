import DataBlock.Power
/-!
# Binary floating point formats

A format is given by the widths of its two fields.  Every finite number of a
format is a whole multiple of its smallest positive number, so a bit pattern
is read as a sign and a count of such units; comparing, rounding and printing
are then exact arithmetic on natural numbers.
-/

namespace DataBlock.Binary

/-- Widths of the fields of a bit pattern below its sign bit. -/
structure Format where
  fractionWidth : Nat
  exponentWidth : Nat
  deriving DecidableEq, Repr

inductive Datum where
  | nan
  | infinite (negative : Bool)
  | finite (negative : Bool) (units : Nat)
  deriving DecidableEq, Repr

def roundHalfEven (num den : Nat) : Nat :=
  let q := num / den
  let twice := 2 * (num % den)
  if twice < den then q
  else if den < twice then q + 1
  else q + q % 2

namespace Format

def single : Format := ⟨23, 8⟩

def double : Format := ⟨52, 11⟩

/-- How many patterns share an exponent field. -/
def binade (f : Format) : Nat := 2 ^ f.fractionWidth

/-- The pattern of positive infinity; those of finite numbers lie below it. -/
def infinity (f : Format) : Nat := (2 ^ f.exponentWidth - 1) * f.binade

/-- The pattern of negative zero. -/
def signBit (f : Format) : Nat := 2 ^ (f.fractionWidth + f.exponentWidth)

def unitsPerOne (f : Format) : Nat :=
  2 ^ (2 ^ (f.exponentWidth - 1) - 2 + f.fractionWidth)

def significand (f : Format) (magnitude : Nat) : Nat :=
  if magnitude < f.binade then magnitude
  else f.binade + magnitude % f.binade

/-- Power of two that the significand counts, in units. -/
def shift (f : Format) (magnitude : Nat) : Nat :=
  magnitude / f.binade - 1

def units (f : Format) (magnitude : Nat) : Nat :=
  f.significand magnitude * 2 ^ f.shift magnitude

/-- The pattern nearest to `num / den` units; of two nearest ones, the even one.
From half a step above the largest finite number on, it is infinity. -/
def roundUnits (f : Format) (num den : Nat) : Nat :=
  let exponent := (num / den).log2 - f.fractionWidth
  min f.infinity (exponent * f.binade + roundHalfEven num (den * 2 ^ exponent))

def round (f : Format) (num den : Nat) : Nat :=
  f.roundUnits (num * f.unitsPerOne) den

def datum (f : Format) (bits : Nat) : Datum :=
  let negative := decide (f.signBit ≤ bits)
  let magnitude := bits % f.signBit
  if magnitude < f.infinity then .finite negative (f.units magnitude)
  else if magnitude = f.infinity then .infinite negative
  else .nan

def signed (f : Format) (negative : Bool) (magnitude : Nat) : Nat :=
  if negative then f.signBit + magnitude else magnitude

/-- A pattern of no number: quiet, without sign. -/
def quietNaN (f : Format) : Nat := f.infinity + f.binade / 2

end Format

namespace Datum

/-- Equality of numbers: both zeros are one number, and no NaN equals anything. -/
def same : Datum → Datum → Bool
  | .finite s a, .finite t b => a == b && (s == t || a == 0)
  | .infinite s, .infinite t => s == t
  | _, _ => false

end Datum

end DataBlock.Binary
