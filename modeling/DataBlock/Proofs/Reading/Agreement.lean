import DataBlock.Proofs.Reading.Filing
import DataBlock.Transport.Memory
/-!
# Planned reading agrees with plain reading

A transport that answers each read by the data block and the span alone gives
every tag the same result, whether the tags are read one by one or by plan.
Data blocks in memory are such a transport as long as they are connected.
-/

namespace DataBlock

/-- From states with the property, the action gives the result and keeps the
property. -/
def Yields {σ α : Type} (P : σ → Prop) (action : StateM σ α) (a : α) : Prop :=
  ∀ s, P s → (action s).1 = a ∧ P (action s).2

namespace Yields

variable {σ α β : Type} {P : σ → Prop}

protected theorem pure (a : α) : Yields P (pure a) a := by
  intro s hs
  exact ⟨rfl, hs⟩

protected theorem bind {action : StateM σ α} {next : α → StateM σ β} {a : α} {b : β}
    (h : Yields P action a) (hnext : Yields P (next a) b) : Yields P (action >>= next) b := by
  intro s hs
  rcases h s hs with ⟨hvalue, hstate⟩
  change (next (action s).1 (action s).2).1 = b ∧ P (next (action s).1 (action s).2).2
  rw [hvalue]
  exact hnext _ hstate

protected theorem map {action : StateM σ α} {a : α} (h : Yields P action a) (f : α → β) :
    Yields P (do return f (← action)) (f a) :=
  h.bind (.pure _)

protected theorem mapM {f : α → StateM σ β} {g : α → β} {xs : List α}
    (h : ∀ x ∈ xs, Yields P (f x) (g x)) : Yields P (xs.mapM f) (xs.map g) := by
  induction xs with
  | nil => exact .pure _
  | cons x xs ih =>
      rw [List.mapM_cons, List.map_cons]
      have hhead : Yields P (f x) (g x) := h x List.mem_cons_self
      have htail : Yields P (xs.mapM f) (xs.map g) := by
        apply ih
        intro y hy
        exact h y (List.mem_cons_of_mem _ hy)
      exact hhead.bind (htail.bind (.pure _))

end Yields

namespace Transport

open Plan

variable {σ ν : Type}

/-- From states with the property, a read is answered by the data block and the
span alone.  Spans read together are read one after the other, or get the
answers each would get. -/
structure AnswersBy (t : Transport σ) (P : σ → Prop) (reply : UInt16 → Span → Reply) :
    Prop where
  read : ∀ block span, Yields P (t.read block span) (reply block span)
  readMany : t.readMany = readEach t.read ∨
    ∀ spans, Yields P (t.readMany spans) (.ok (spans.map fun (block, span) => reply block span))

namespace AnswersBy

variable {t : Transport σ} {P : σ → Prop} {reply : UInt16 → Span → Reply}

theorem yields_readMany (h : t.AnswersBy P reply) (spans : List (UInt16 × Span)) :
    Yields P (t.readMany spans) (.ok (spans.map fun (block, span) => reply block span)) := by
  rcases h.readMany with heach | hmany
  · rw [heach]
    have hspans : Yields P (spans.mapM fun (block, span) => t.read block span)
        (spans.map fun (block, span) => reply block span) := by
      apply Yields.mapM
      intro (block, span) _
      exact h.read block span
    exact hspans.map Except.ok
  · exact hmany spans

theorem yields_readTag (h : t.AnswersBy P reply) (tag : Tag) :
    Yields P (t.readTag tag) (tag.decodeReply (reply tag.block tag.span)) :=
  (h.read tag.block tag.span).map tag.decodeReply

theorem yields_readTags (h : t.AnswersBy P reply) (tags : List (ν × Tag)) :
    Yields P (t.readTags tags)
      (tags.map fun (name, tag) => (name, tag.decodeReply (reply tag.block tag.span))) := by
  apply Yields.mapM
  intro (name, tag) _
  exact (h.yields_readTag tag).map (name, ·)

theorem yields_ask (h : t.AnswersBy P reply) (request : Request) :
    Yields P (t.ask request)
      (.ok (request.items.map fun item => reply request.block item.span)) := by
  unfold ask
  split
  · next item hitems =>
    rw [hitems]
    exact (h.read request.block item.span).map fun bytes => Except.ok [bytes]
  · simpa [Request.spans, Function.comp_def] using h.yields_readMany request.spans

theorem yields_askAll (h : t.AnswersBy P reply) (requests : List Request) :
    Yields P (t.askAll requests)
      (requests.flatMap fun r =>
        r.items.map fun item => (item.index, reply r.block item.span)) := by
  have hrequest : ∀ r : Request, Yields P (return r.replies (← t.ask r))
      (r.items.map fun item => (item.index, reply r.block item.span)) := by
    intro r
    rw [← r.replies_ok]
    exact (h.yields_ask r).map r.replies
  have hall := Yields.mapM fun r (_ : r ∈ requests) => hrequest r
  exact hall.map List.flatten

theorem yields_readTagsPlanned (h : t.AnswersBy P reply) (planner : Planner)
    (tags : List (ν × Tag)) :
    Yields P (t.readTagsPlanned planner tags)
      (tags.map fun (name, tag) => (name, tag.decodeReply (reply tag.block tag.span))) := by
  have hresults : List.zipWith
      (fun (name, tag) slot =>
        (name, tag.decodeReply (slot.getD (.error (.transport .unplanned)))))
      tags
      (file (List.replicate tags.length none)
        ((planner.plan (tags.map (·.2))).flatMap fun r =>
          r.items.map fun item => (item.index, reply r.block item.span))) =
      tags.map fun (name, tag) => (name, tag.decodeReply (reply tag.block tag.span)) := by
    apply List.ext_getElem?
    intro index
    rw [List.getElem?_map, List.getElem?_zipWith]
    rcases htag : tags[index]? with _ | ⟨name, tag⟩
    · rfl
    · have hplace : (tags.map (·.2))[index]? = some tag := by simp [htag]
      have hslot := getElem?_file_plan planner (tags.map (·.2)) reply hplace
      rw [List.length_map] at hslot
      simp [hslot]
  rw [← hresults]
  have hreplies := h.yields_askAll (planner.plan (tags.map (·.2)))
  exact hreplies.map _

theorem planned_eq_plain (h : t.AnswersBy P reply) (planner : Planner) (tags : List (ν × Tag))
    {s : σ} (hs : P s) :
    (t.readTagsPlanned planner tags s).1 = (t.readTags tags s).1 := by
  calc
    _ = tags.map fun (name, tag) => (name, tag.decodeReply (reply tag.block tag.span)) :=
      (h.yields_readTagsPlanned planner tags s hs).1
    _ = _ := (h.yields_readTags tags s hs).1.symm

end AnswersBy

end Transport

namespace Memory

/-- Connected, with the data blocks of `m`. -/
def Serves (m s : Memory) : Prop :=
  s.connected = true ∧ s.blocks = m.blocks

theorem fetch_of_serves {m s : Memory} (h : m.Serves s) : s.fetch = m.fetch := by
  funext block span
  simp [fetch, h.2]

theorem transport_answersBy (m : Memory) : transport.AnswersBy m.Serves m.fetch where
  read block span s hs := by
    simp [transport, roundTrip, hs.1, fetch_of_serves hs, Serves, hs.2]
  readMany := by
    right
    intro spans s hs
    simp [transport, roundTrip, hs.1, fetch_of_serves hs, Serves, hs.2]

end Memory

/-- Where reads are answered by data block and span alone, tags read by plan get
the names and results that they get read one by one, which are the decoded
answers for each tag.  Connected data blocks in memory are a case of this. -/
theorem readTagsPlanned_eq_readTags {ν : Type} (planner : Planner) (tags : List (ν × Tag)) :
    (∀ {σ : Type} (t : Transport σ) (P : σ → Prop) (reply : UInt16 → Span → Reply),
      t.AnswersBy P reply → ∀ s, P s →
        (t.readTagsPlanned planner tags s).1 = (t.readTags tags s).1 ∧
        (t.readTags tags s).1 =
          tags.map fun (name, tag) => (name, tag.decodeReply (reply tag.block tag.span))) ∧
    ∀ m : Memory, m.connected = true →
      (Memory.transport.readTagsPlanned planner tags m).1 =
        (Memory.transport.readTags tags m).1 := by
  constructor
  · intro σ t P reply h s hs
    exact ⟨h.planned_eq_plain planner tags hs, (h.yields_readTags tags s hs).1⟩
  · intro m hm
    have hserves : m.Serves m := ⟨hm, rfl⟩
    exact m.transport_answersBy.planned_eq_plain planner tags hserves

/-- A counter read as two types, and between the two a tag of a data block that
does not exist. -/
def counterTags : List (String × Tag) :=
  ["signed", "speed", "unsigned"].zip Plan.sharedOffset

def counterResults : List (String × Except Error Value) :=
  [("signed", .ok (.int (-42))), ("speed", .error (.transport (.blockMissing 1))),
    ("unsigned", .ok (.word 0xFFD6))]

def counterMemory : Memory :=
  { Memory.empty.write 4 6 [0xFF, 0xD6] with connected := true }

def counterReads : Transport Unit :=
  .ofRead fun block span => pure (counterMemory.fetch block span)

theorem readTagsPlanned_counters :
    counterReads.AnswersBy (fun _ => True) counterMemory.fetch ∧
    counterMemory.connected = true ∧
    (counterReads.readTagsPlanned (Planner.standard.withMaxItems 0) counterTags ()).1 =
      counterResults ∧
    (Memory.transport.readTagsPlanned Planner.standard counterTags counterMemory).1 =
      counterResults := by
  have hreads : counterReads.AnswersBy (fun _ => True) counterMemory.fetch := by
    constructor
    · intro block span s hs
      exact ⟨rfl, hs⟩
    · left
      rfl
  have hsingle := readTagsPlanned_eq_readTags (Planner.standard.withMaxItems 0) counterTags
  have hshared := readTagsPlanned_eq_readTags Planner.standard counterTags
  refine ⟨hreads, rfl, ?_, ?_⟩
  · rw [(hsingle.1 counterReads _ _ hreads () trivial).1]
    rfl
  · rw [hshared.2 counterMemory rfl]
    rfl

end DataBlock
