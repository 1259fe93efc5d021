import DataBlock.Bytes
import DataBlock.Error
/-!
# Transports

A transport fetches bytes of data blocks from a controller.  It is given by
what each of its operations does to a state, on which nothing is assumed.
-/

namespace DataBlock

abbrev Reply := Except Error Bytes

structure Transport (σ : Type) where
  connect : StateM σ (Except Error Unit)
  disconnect : StateM σ (Except Error Unit)
  /-- Reads a span of a data block. -/
  read : UInt16 → Span → StateM σ Reply
  /-- Reads spans together; each has a reply of its own. -/
  readMany : List (UInt16 × Span) → StateM σ (Except Error (List Reply))

namespace Transport

def readEach {σ : Type} (read : UInt16 → Span → StateM σ Reply)
    (spans : List (UInt16 × Span)) : StateM σ (Except Error (List Reply)) := do
  return .ok (← spans.mapM fun (block, span) => read block span)

/-- A transport that can only read.  There is nothing to connect, and several
spans are read one after the other. -/
def ofRead {σ : Type} (read : UInt16 → Span → StateM σ Reply) : Transport σ where
  connect := pure (.ok ())
  disconnect := pure (.ok ())
  read := read
  readMany := readEach read

end Transport

end DataBlock
