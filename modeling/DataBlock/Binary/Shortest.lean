import DataBlock.Binary.Number
import DataBlock.Text.Numeral
/-!
# Shortest decimal text of a number

A number is printed with the coarsest decimal that reads back as the same
number: the multiple of the largest power of ten inside the interval of reals
that round to it.  If two neighbouring multiples lie inside, the nearer one is
taken, and the upper one if both are equally near.  The text is always
positional, without exponent, and whole numbers have no point.
-/

namespace DataBlock.Binary

/-- The number `digits · 10 ^ exponent`. -/
structure Decimal where
  digits : Nat
  exponent : Int
  deriving DecidableEq, Repr

namespace Decimal

def normalize (d : Decimal) : Decimal :=
  if h : d.digits ≠ 0 ∧ d.digits % 10 = 0 then
    normalize ⟨d.digits / 10, d.exponent + 1⟩
  else d
termination_by d.digits
decreasing_by exact Nat.div_lt_self (by omega) (by omega)

/-- Positional text, without trailing zeros behind the point. -/
def render (d : Decimal) : List Char :=
  let d := d.normalize
  match d.exponent with
  | .ofNat zeros => Nat.toDigits 10 d.digits ++ List.replicate zeros '0'
  | .negSucc n =>
    let places := n + 1
    let text := Text.padded (places + 1) d.digits
    text.take (text.length - places) ++ '.' :: text.drop (text.length - places)

end Decimal

namespace Format

/-- Ends of the interval of reals that round to a pattern, in quarter units.
Below a power of two the patterns lie twice as dense. -/
def interval (f : Format) (magnitude : Nat) : Nat × Nat :=
  let step := 2 ^ f.shift magnitude
  let middle := 4 * f.units magnitude
  let below :=
    if f.significand magnitude = f.binade ∧ f.binade < magnitude then step else 2 * step
  (middle - below, middle + 2 * step)

/-- Whether `num / den` quarter units round to a pattern: the ends of its
interval do so exactly if its significand is even. -/
def roundsTo (f : Format) (magnitude num den : Nat) : Bool :=
  let (low, high) := f.interval magnitude
  if f.significand magnitude % 2 = 0 then low * den ≤ num && num ≤ high * den
  else low * den < num && num < high * den

/-- The multiple of `10 ^ exponent` that is nearest to a pattern's number, among
its two neighbours that read back as the pattern. -/
def onGrid? (f : Format) (magnitude : Nat) (exponent : Int) : Option Decimal :=
  let up := 10 ^ exponent.toNat
  let down := 10 ^ (-exponent).toNat
  let num := f.units magnitude * down
  let den := f.unitsPerOne * up
  let floor := num / den
  let inside := fun n => f.roundsTo magnitude (4 * (n * den)) down
  match inside floor, inside (floor + 1) with
  | false, false => none
  | true, false => some ⟨floor, exponent⟩
  | false, true => some ⟨floor + 1, exponent⟩
  | true, true =>
    if 2 * (num % den) < den then some ⟨floor, exponent⟩ else some ⟨floor + 1, exponent⟩

/-- An exponent whose power of ten lies above a pattern's interval. -/
def topExponent (f : Format) (magnitude : Nat) : Int :=
  let units := f.units magnitude
  if f.unitsPerOne ≤ units then
    (Nat.toDigits 10 (units / f.unitsPerOne)).length + 1
  else
    3 - (Nat.toDigits 10 (f.unitsPerOne / units)).length

/-- The coarsest decimal that reads back as a pattern.  The grids searched
reach past the seventeen digits that tell any two doubles apart. -/
def shortest (f : Format) (magnitude : Nat) : Decimal :=
  let top := f.topExponent magnitude
  ((List.range 24).findSome? fun (i : Nat) => f.onGrid? magnitude (top - i)).getD ⟨0, 0⟩

def render (f : Format) (bits : Nat) : List Char :=
  let withSign := fun (negative : Bool) (text : List Char) =>
    if negative then '-' :: text else text
  match f.datum bits with
  | .nan => "NaN".toList
  | .infinite negative => withSign negative "inf".toList
  | .finite negative 0 => withSign negative ['0']
  | .finite negative _ => withSign negative (f.shortest (bits % f.signBit)).render

end Format

def Single.render (x : Single) : List Char := Format.single.render x.bits.toNat

def Double.render (x : Double) : List Char := Format.double.render x.bits.toNat

end DataBlock.Binary
