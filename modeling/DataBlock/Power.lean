/-!
# Powers and sums of numbers

A power and the empty sum can be looked up in more than one library, so that a
definition would depend on what is imported beside it.  Here they are always
those of the core library.
-/

namespace DataBlock

scoped instance (priority := high) powOfNatPow {α : Type} [NatPow α] : Pow α Nat := instPowNat

scoped instance (priority := high) zeroNat : Zero Nat := Zero.ofOfNat0

end DataBlock
