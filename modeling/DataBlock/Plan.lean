import DataBlock.Tag.Basic
import DataBlock.Power
/-!
# Read plans

Tags are read in requests of several items.  A request reads from one data
block; how many items and bytes it may have is up to the planner.  The tags are
grouped by data block, and the items of a block are taken by ascending offset,
each into the request being filled if it still fits there and into a new one
otherwise.
-/

namespace DataBlock

namespace Plan

/-- A tag in a request: its place in the list of all tags, and its bytes. -/
structure Item where
  index : Nat
  span : Span
  deriving DecidableEq, Repr

structure Request where
  block : UInt16
  items : List Item
  deriving DecidableEq, Repr

/-- Bytes taken by the head of a request. -/
def requestHeader : Nat := 14

/-- Bytes taken by the head of an item. -/
def itemHeader : Nat := 12

/-- The size of a request that most controllers agree to. -/
def defaultPduSize : Nat := 240

def maxItemsPerRequest : Nat := 20

namespace Request

def payload (r : Request) : Nat :=
  (r.items.map fun item => item.span.length.toNat).sum

/-- Bytes of a request with all its heads. -/
def pduSize (r : Request) : Nat :=
  requestHeader + itemHeader * r.items.length + r.payload

def spans (r : Request) : List (UInt16 × Span) :=
  r.items.map fun item => (r.block, item.span)

end Request

/-- The items of each data block; the data blocks ascend. -/
abbrev Groups := List (UInt16 × List Item)

def Groups.add (block : UInt16) (item : Item) : Groups → Groups
  | [] => [(block, [item])]
  | (other, items) :: groups =>
    if block < other then (block, [item]) :: (other, items) :: groups
    else if block = other then (other, items ++ [item]) :: groups
    else (other, items) :: Groups.add block item groups

def group (tags : List Tag) : Groups :=
  tags.zipIdx.foldl (fun groups (tag, index) => groups.add tag.block ⟨index, tag.span⟩) []

/-- Items by ascending offset; those at one offset stay in order. -/
def sortByOffset (items : List Item) : List Item :=
  items.mergeSort fun a b => a.span.offset ≤ b.span.offset

end Plan

/-- The limits on a request.  A single item may exceed the size. -/
structure Planner where
  pduSize : Nat
  maxItems : Nat
  maxItems_pos : 0 < maxItems
  deriving DecidableEq, Repr

namespace Planner

open Plan

def ofPduSize (pduSize : Nat) : Planner :=
  ⟨pduSize, maxItemsPerRequest, by decide⟩

def standard : Planner := ofPduSize defaultPduSize

/-- The planner with another limit of items; one item is always allowed. -/
def withMaxItems (p : Planner) (n : Nat) : Planner :=
  ⟨p.pduSize, max n 1, by omega⟩

/-- The requests for items of a data block.  `current` are the items of the
request being filled, and `size` is their bytes with their heads. -/
def pack (p : Planner) (block : UInt16) (current : List Item) (size : Nat) :
    List Item → List Request
  | [] => if current = [] then [] else [⟨block, current⟩]
  | item :: items =>
    let itemSize := itemHeader + item.span.length.toNat
    if p.maxItems ≤ current.length ∨
        current ≠ [] ∧ p.pduSize < size + itemSize + requestHeader then
      ⟨block, current⟩ :: p.pack block [item] itemSize items
    else p.pack block (current ++ [item]) (size + itemSize) items

def plan (p : Planner) (tags : List Tag) : List Request :=
  (group tags).flatMap fun (block, items) => p.pack block [] 0 (sortByOffset items)

end Planner

end DataBlock
