/-!
# Spans

A span is a run of bytes in a data block.
-/

namespace DataBlock

structure Span where
  offset : UInt32
  length : UInt32
  deriving DecidableEq, Repr

namespace Span

/-- The offset after the last byte. -/
def stop (s : Span) : Nat := s.offset.toNat + s.length.toNat

/-- The half-open interval of the offsets. -/
instance : ToString Span where
  toString s := "[" ++ toString s.offset.toNat ++ ".." ++ toString s.stop ++ ")"

def le (a b : Span) : Bool :=
  a.offset < b.offset || a.offset == b.offset && a.length ≤ b.length

end Span

end DataBlock
