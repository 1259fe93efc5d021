import DataBlock.Tag.Decoding
import DataBlock.Plan
import DataBlock.Transport.Basic
/-!
# Reading tags over a transport

Tags are read one by one, or in the requests of a plan.  Either way each tag
has a result of its own, in the order of the tags, whatever becomes of the
others.
-/

namespace DataBlock

def Tag.decodeReply (tag : Tag) (reply : Reply) : Except Error Value := do
  (tag.decode (← reply)).mapError .codec

/-- The reply to each item of a request, with the item's index.  An answer that
does not fit the request is a fault of every item. -/
def Plan.Request.replies (request : Plan.Request) (answer : Except Error (List Reply)) :
    List (Nat × Reply) :=
  let indices := request.items.map (·.index)
  match answer with
  | .ok replies =>
    if replies.length = indices.length then indices.zip replies
    else
      let fault := .itemCount request.block indices.length replies.length
      indices.map fun index => (index, .error (.transport fault))
  | .error e => indices.map fun index => (index, .error (.transport (.other e.message)))

namespace Transport

variable {σ ν : Type}

def readTag (t : Transport σ) (tag : Tag) : StateM σ (Except Error Value) := do
  return tag.decodeReply (← t.read tag.block tag.span)

def readTags (t : Transport σ) (tags : List (ν × Tag)) :
    StateM σ (List (ν × Except Error Value)) :=
  tags.mapM fun (name, tag) => return (name, ← t.readTag tag)

/-- The answer to a request.  A single item is read on its own. -/
def ask (t : Transport σ) (request : Plan.Request) : StateM σ (Except Error (List Reply)) :=
  match request.items with
  | [item] => return .ok [← t.read request.block item.span]
  | _ => t.readMany request.spans

def askAll (t : Transport σ) (requests : List Plan.Request) : StateM σ (List (Nat × Reply)) := do
  return (← requests.mapM fun request => return request.replies (← t.ask request)).flatten

/-- Slots with each reply put in at its index. -/
def file (slots : List (Option Reply)) (replies : List (Nat × Reply)) : List (Option Reply) :=
  replies.foldl (fun slots (index, reply) => slots.set index (some reply)) slots

def readTagsPlanned (t : Transport σ) (planner : Planner) (tags : List (ν × Tag)) :
    StateM σ (List (ν × Except Error Value)) := do
  let replies ← t.askAll (planner.plan (tags.map (·.2)))
  let slots := file (List.replicate tags.length none) replies
  return List.zipWith
    (fun (name, tag) slot =>
      (name, tag.decodeReply (slot.getD (.error (.transport .unplanned)))))
    tags slots

end Transport

end DataBlock
