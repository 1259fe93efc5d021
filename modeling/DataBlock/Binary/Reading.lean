import DataBlock.Binary.Number
import DataBlock.Text.Split
import DataBlock.Text.Numeral
/-!
# Reading numbers from text

A number is written with an optional sign, then as digits with an optional
point (at least one digit on either side) and an optional decimal exponent, or
as one of the words `inf`, `infinity` and `nan` in any case.  The pattern read is
the one nearest to the written number.
-/

namespace DataBlock.Binary

inductive Literal where
  | nan
  | infinity
  | decimal (digits : Nat) (exponent : Int)
  deriving DecidableEq, Repr

namespace Literal

/-- The value of an exponent's digits.  Digits after the first that takes it to
`65536` or more are ignored: every such exponent is out of range. -/
def exponentValue (digits : List Char) : Nat :=
  digits.foldl (fun n c => if n < 65536 then 10 * n + (c.toNat - '0'.toNat) else n) 0

/-- The exponent at the end of a decimal: nothing, or `e` and a signed numeral. -/
def exponent? : List Char → Option Int
  | [] => some 0
  | e :: s =>
    if e = 'e' ∨ e = 'E' then
      let (negative, digits) := match s with
        | '-' :: digits => (true, digits)
        | '+' :: digits => (false, digits)
        | digits => (false, digits)
      if digits ≠ [] ∧ digits.all Char.isDigit then
        let n : Int := exponentValue digits
        some (if negative then -n else n)
      else none
    else none

def decimal? (s : List Char) : Option Literal := do
  let whole := s.takeWhile Char.isDigit
  let (fraction, rest) := match s.dropWhile Char.isDigit with
    | '.' :: rest => (rest.takeWhile Char.isDigit, rest.dropWhile Char.isDigit)
    | rest => ([], rest)
  let digits ← Text.numeral? (whole ++ fraction)
  let exponent ← exponent? rest
  return .decimal digits (exponent - fraction.length)

def ofText? (s : List Char) : Option Literal :=
  let word := s.map Char.toLower
  if word = "inf".toList ∨ word = "infinity".toList then some .infinity
  else if word = "nan".toList then some .nan
  else decimal? s

def magnitude (f : Format) : Literal → Nat
  | .nan => f.quietNaN
  | .infinity => f.infinity
  | .decimal digits exponent =>
    f.round (digits * 10 ^ exponent.toNat) (10 ^ (-exponent).toNat)

end Literal

def Format.ofText? (f : Format) (s : List Char) : Option Nat :=
  let (negative, s) := match s with
    | '-' :: s => (true, s)
    | '+' :: s => (false, s)
    | s => (false, s)
  (Literal.ofText? s).map fun literal => f.signed negative (literal.magnitude f)

def Single.ofText? (s : List Char) : Option Single :=
  (Format.single.ofText? s).map fun bits => ⟨UInt32.ofNat bits⟩

def Double.ofText? (s : List Char) : Option Double :=
  (Format.double.ofText? s).map fun bits => ⟨UInt64.ofNat bits⟩

end DataBlock.Binary
