/-!
# UTF-16 code units

`Utf16.encode` writes a text as code units; `Utf16.decode` reads units back
and refuses a surrogate outside a high-low pair, naming the first such unit.
`Utf16.scalar?` reads a lone unit.
-/

namespace DataBlock.Text.Utf16

def isHigh (u : UInt16) : Bool := 0xD800 ≤ u && u ≤ 0xDBFF

def isLow (u : UInt16) : Bool := 0xDC00 ≤ u && u ≤ 0xDFFF

def pair (high low : UInt16) : Char :=
  Char.ofNat (0x10000 + (high.toNat - 0xD800) * 0x400 + (low.toNat - 0xDC00))

/-- The character of a unit that is no surrogate. -/
def scalar? (u : UInt16) : Option Char :=
  if isHigh u || isLow u then none else some (Char.ofNat u.toNat)

def encodeChar (c : Char) : List UInt16 :=
  if c.toNat < 0x10000 then [UInt16.ofNat c.toNat]
  else
    let n := c.toNat - 0x10000
    [UInt16.ofNat (0xD800 + n / 0x400), UInt16.ofNat (0xDC00 + n % 0x400)]

def encode (s : List Char) : List UInt16 :=
  s.flatMap encodeChar

/-- The text of the units, or the first unpaired surrogate. -/
def decode : List UInt16 → Except UInt16 (List Char)
  | [] => .ok []
  | [u] =>
    match scalar? u with
    | some c => .ok [c]
    | none => .error u
  | u :: v :: rest =>
    match scalar? u with
    | some c => (decode (v :: rest)).map (c :: ·)
    | none =>
      if isHigh u && isLow v then (decode rest).map (pair u v :: ·)
      else .error u

end DataBlock.Text.Utf16
