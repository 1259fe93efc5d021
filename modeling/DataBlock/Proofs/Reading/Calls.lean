import DataBlock.Transport.Reading
import DataBlock.Transport.Trace
/-!
# The calls of reading

Which calls a transport gets, and in which order, is settled by the tags and the
planner alone, whatever the transport answers: one read for each tag read on its
own, and one call for each request of a plan.
-/

namespace DataBlock

/-- The traced action does what the action does, and adds the calls to those
made before. -/
def Traces {σ α : Type} (traced : StateM (σ × List Call) α) (action : StateM σ α)
    (calls : List Call) : Prop :=
  ∀ s before, traced (s, before) = ((action s).1, (action s).2, before ++ calls)

namespace Traces

variable {σ α β : Type}

theorem record (call : Call) (action : StateM σ α) :
    Traces (Transport.record call action) action [call] := by
  intro s before
  rfl

protected theorem pure (a : α) : Traces (σ := σ) (pure a) (pure a) [] := by
  intro s before
  rw [List.append_nil]
  rfl

protected theorem bind {traced : StateM (σ × List Call) α} {action : StateM σ α}
    {tracedNext : α → StateM (σ × List Call) β} {next : α → StateM σ β}
    {calls nextCalls : List Call} (h : Traces traced action calls)
    (hnext : ∀ a, Traces (tracedNext a) (next a) nextCalls) :
    Traces (traced >>= tracedNext) (action >>= next) (calls ++ nextCalls) := by
  intro s before
  change tracedNext (traced (s, before)).1 (traced (s, before)).2 =
    ((next (action s).1 (action s).2).1, (next (action s).1 (action s).2).2,
      before ++ (calls ++ nextCalls))
  rw [h s before, ← List.append_assoc]
  exact hnext _ _ _

protected theorem map {traced : StateM (σ × List Call) α} {action : StateM σ α}
    {calls : List Call} (h : Traces traced action calls) (f : α → β) :
    Traces (do return f (← traced)) (do return f (← action)) calls := by
  rw [← List.append_nil calls]
  exact h.bind fun a => .pure (f a)

protected theorem mapM {traced : α → StateM (σ × List Call) β} {action : α → StateM σ β}
    {calls : α → List Call} (h : ∀ a, Traces (traced a) (action a) (calls a)) (as : List α) :
    Traces (as.mapM traced) (as.mapM action) (as.flatMap calls) := by
  induction as with
  | nil => exact .pure _
  | cons a as ih =>
      rw [List.mapM_cons, List.mapM_cons, List.flatMap_cons]
      exact (h a).bind fun b => ih.map (b :: ·)

end Traces

def Plan.Request.call (request : Plan.Request) : Call :=
  match request.items with
  | [item] => .read request.block item.span
  | _ => .readMany request.spans

theorem Plan.Request.call_ne (request : Plan.Request) :
    request.call ≠ .connect ∧ request.call ≠ .disconnect := by
  unfold call
  split
  · exact ⟨nofun, nofun⟩
  · exact ⟨nofun, nofun⟩

namespace Transport

variable {σ ν : Type}

theorem traces_readTag (t : Transport σ) (tag : Tag) :
    Traces (t.traced.readTag tag) (t.readTag tag) [.read tag.block tag.span] :=
  (Traces.record _ (t.read tag.block tag.span)).map tag.decodeReply

theorem traces_readTags (t : Transport σ) (tags : List (ν × Tag)) :
    Traces (t.traced.readTags tags) (t.readTags tags)
      (tags.map fun (_, tag) => .read tag.block tag.span) := by
  rw [List.map_eq_flatMap]
  apply Traces.mapM
  intro (name, tag)
  exact (t.traces_readTag tag).map (name, ·)

theorem traces_ask (t : Transport σ) (request : Plan.Request) :
    Traces (t.traced.ask request) (t.ask request) [request.call] := by
  rcases request with ⟨block, _ | ⟨item, _ | ⟨next, items⟩⟩⟩
  · exact Traces.record _ (t.readMany _)
  · exact (Traces.record _ (t.read block item.span)).map fun reply => Except.ok [reply]
  · exact Traces.record _ (t.readMany _)

theorem traces_askAll (t : Transport σ) (requests : List Plan.Request) :
    Traces (t.traced.askAll requests) (t.askAll requests) (requests.map (·.call)) := by
  rw [List.map_eq_flatMap]
  have hall := Traces.mapM (fun request => (t.traces_ask request).map request.replies) requests
  exact hall.map List.flatten

theorem traces_readTagsPlanned (t : Transport σ) (planner : Planner) (tags : List (ν × Tag)) :
    Traces (t.traced.readTagsPlanned planner tags) (t.readTagsPlanned planner tags)
      ((planner.plan (tags.map (·.2))).map (·.call)) := by
  have hreplies := t.traces_askAll (planner.plan (tags.map (·.2)))
  exact hreplies.map _

end Transport

end DataBlock
