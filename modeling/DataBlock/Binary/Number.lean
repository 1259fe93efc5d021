import DataBlock.Binary.Format
/-!
# Single and double precision numbers

`Single` and `Double` hold bit patterns.  Their equality test compares the
numbers they stand for, while `=` compares patterns.
-/

namespace DataBlock.Binary

structure Single where
  bits : UInt32
  deriving DecidableEq, Repr

structure Double where
  bits : UInt64
  deriving DecidableEq, Repr

namespace Single

def datum (x : Single) : Datum := Format.single.datum x.bits.toNat

instance : BEq Single where
  beq x y := x.datum.same y.datum

def widen (x : Single) : Double :=
  let f := Format.double
  ⟨UInt64.ofNat <| match x.datum with
    | .nan => f.quietNaN
    | .infinite negative => f.signed negative f.infinity
    | .finite negative units => f.signed negative (f.round units Format.single.unitsPerOne)⟩

end Single

namespace Double

def datum (x : Double) : Datum := Format.double.datum x.bits.toNat

instance : BEq Double where
  beq x y := x.datum.same y.datum

def scale (x : Double) (factor : Nat) : Double :=
  let f := Format.double
  match x.datum with
  | .finite negative units =>
    ⟨UInt64.ofNat (f.signed negative (f.roundUnits (units * factor) 1))⟩
  | _ => x

end Double

end DataBlock.Binary
