import DataBlock.Transport.Basic
/-!
# Data blocks in memory

`Memory` stands in for a controller.  A data block exists once it has been
written, and it is as long as the longest write to it; bytes never written are
zero.  Reads need a connection, and each counts as a round trip, whether or not
its bytes exist.
-/

namespace DataBlock

structure Memory where
  /-- The image of each data block that exists. -/
  blocks : UInt16 → Option Bytes
  connected : Bool
  roundTrips : Nat

namespace Memory

def empty : Memory := ⟨fun _ => none, false, 0⟩

/-- The image with bytes written at an offset; it grows as needed. -/
def overwrite (image : Bytes) (offset : Nat) (bytes : Bytes) : Bytes :=
  let stop := offset + bytes.length
  let image := image ++ List.replicate (stop - image.length) 0
  image.take offset ++ bytes ++ image.drop stop

def write (m : Memory) (block : UInt16) (offset : UInt32) (bytes : Bytes) : Memory :=
  let image := overwrite ((m.blocks block).getD []) offset.toNat bytes
  { m with blocks := fun other => if other = block then some image else m.blocks other }

/-- The bytes of a span, connected or not. -/
def fetch (m : Memory) (block : UInt16) (span : Span) : Reply :=
  match m.blocks block with
  | none => .error (.transport (.blockMissing block))
  | some image =>
    if span.stop ≤ image.length then
      .ok ((image.drop span.offset.toNat).take span.length.toNat)
    else .error (.transport (.outOfRange block span image.length))

/-- Answers in one round trip, if there is a connection. -/
def roundTrip {α : Type} (answer : Memory → Except Error α) : StateM Memory (Except Error α) :=
  fun m =>
    if m.connected then (answer m, { m with roundTrips := m.roundTrips + 1 })
    else (.error (.transport .notConnected), m)

def transport : Transport Memory where
  connect := fun m => (.ok (), { m with connected := true })
  disconnect := fun m => (.ok (), { m with connected := false })
  read block span := roundTrip fun m => m.fetch block span
  readMany spans := roundTrip fun m => .ok (spans.map fun (block, span) => m.fetch block span)

/-! ## What a write changes -/

theorem length_overwrite (image : Bytes) (offset : Nat) (bytes : Bytes) :
    (overwrite image offset bytes).length = max image.length (offset + bytes.length) := by
  simp only [overwrite, List.length_append, List.length_take, List.length_drop,
    List.length_replicate]
  omega

theorem blocks_write_self (m : Memory) (block : UInt16) (offset : UInt32) (bytes : Bytes) :
    (m.write block offset bytes).blocks block =
      some (overwrite ((m.blocks block).getD []) offset.toNat bytes) := by
  simp [write]

theorem blocks_write_of_ne {block other : UInt16} (h : other ≠ block) (m : Memory)
    (offset : UInt32) (bytes : Bytes) :
    (m.write block offset bytes).blocks other = m.blocks other := by
  simp [write, h]

end Memory

end DataBlock
