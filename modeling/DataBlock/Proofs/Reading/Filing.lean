import DataBlock.Transport.Reading
import DataBlock.Proofs.Plan.Partition
/-!
# Filing replies under their tags

Each request of a plan gives one reply to each of its items.  Filed at the
indices of the items, the replies of a whole plan fill the slot of every tag
exactly once.
-/

namespace DataBlock

theorem Plan.Request.replies_ok (request : Plan.Request) (reply : Plan.Item → Reply) :
    request.replies (.ok (request.items.map reply)) =
      request.items.map fun item => (item.index, reply item) := by
  simp [replies, List.zip_map']

namespace Transport

open Plan

theorem file_cons (slots : List (Option Reply)) (index : Nat) (reply : Reply)
    (replies : List (Nat × Reply)) :
    file slots ((index, reply) :: replies) = file (slots.set index (some reply)) replies := rfl

theorem length_file (slots : List (Option Reply)) (replies : List (Nat × Reply)) :
    (file slots replies).length = slots.length := by
  induction replies generalizing slots with
  | nil => rfl
  | cons head replies ih => rw [file_cons, ih, List.length_set]

theorem getElem?_file_of_notMem {slots : List (Option Reply)} {replies : List (Nat × Reply)}
    {index : Nat} (h : index ∉ replies.map (·.1)) :
    (file slots replies)[index]? = slots[index]? := by
  induction replies generalizing slots with
  | nil => rfl
  | cons head replies ih =>
      rcases head with ⟨other, reply⟩
      rw [List.map_cons, List.mem_cons, not_or] at h
      rw [file_cons, ih h.2, List.getElem?_set_ne (Ne.symm h.1)]

/-- Where no index comes twice, a reply stays in the slot it is put in. -/
theorem getElem?_file_of_mem {slots : List (Option Reply)} {replies : List (Nat × Reply)}
    (hnodup : (replies.map (·.1)).Nodup) {index : Nat} {reply : Reply}
    (hmem : (index, reply) ∈ replies) (hindex : index < slots.length) :
    (file slots replies)[index]? = some (some reply) := by
  induction replies generalizing slots with
  | nil => simp at hmem
  | cons head replies ih =>
      rcases head with ⟨other, first⟩
      rw [List.map_cons, List.nodup_cons] at hnodup
      rw [file_cons]
      rcases List.mem_cons.1 hmem with heq | hmem
      · -- it is put in now, and nothing is put there later
        rw [Prod.mk.injEq] at heq
        rw [heq.1, heq.2, getElem?_file_of_notMem hnodup.1]
        rw [heq.1] at hindex
        exact List.getElem?_set_self hindex
      · apply ih hnodup.2 hmem
        rw [List.length_set]
        exact hindex

theorem nodup_index_plan (planner : Planner) (tags : List Tag) :
    ((planner.plan tags).flatMap fun r => r.items.map (·.index)).Nodup := by
  rw [(index_plan_perm planner tags).nodup_iff]
  exact List.nodup_range

/-- Replies to the items of a plan, filed into slots for the tags, put the reply
for each tag into its slot. -/
theorem getElem?_file_plan (planner : Planner) (tags : List Tag)
    (reply : UInt16 → Span → Reply) {index : Nat} {tag : Tag} (htag : tags[index]? = some tag) :
    (file (List.replicate tags.length none)
      ((planner.plan tags).flatMap fun r =>
        r.items.map fun item => (item.index, reply r.block item.span)))[index]? =
      some (some (reply tag.block tag.span)) := by
  have hentry : (⟨tag.block, index, tag.span⟩ : Entry) ∈ placed (planner.plan tags) := by
    rw [mem_placed_plan, mem_entries]
    exact ⟨tag, htag, rfl, rfl⟩
  rcases List.mem_flatMap.1 hentry with ⟨r, hr, hmem⟩
  rcases List.mem_map.1 hmem with ⟨item, hitem, heq⟩
  rw [Entry.mk.injEq] at heq
  apply getElem?_file_of_mem
  · simpa [List.map_flatMap, Function.comp_def] using nodup_index_plan planner tags
  · apply List.mem_flatMap.2
    refine ⟨r, hr, ?_⟩
    apply List.mem_map.2
    exact ⟨item, hitem, by rw [heq.1, heq.2]⟩
  · rcases List.getElem?_eq_some_iff.1 htag with ⟨hindex, _⟩
    rw [List.length_replicate]
    exact hindex

/-! ## One result for each tag, whatever the answers -/

variable {σ ν : Type}

theorem names_readTags (t : Transport σ) (tags : List (ν × Tag)) (s : σ) :
    (t.readTags tags s).1.map Prod.fst = tags.map Prod.fst := by
  induction tags generalizing s with
  | nil => rfl
  | cons tag tags ih =>
      rw [readTags, List.mapM_cons]
      change tag.1 :: (t.readTags tags _).1.map Prod.fst = _
      rw [ih, List.map_cons]

theorem names_readTagsPlanned (t : Transport σ) (planner : Planner) (tags : List (ν × Tag))
    (s : σ) : (t.readTagsPlanned planner tags s).1.map Prod.fst = tags.map Prod.fst := by
  have hslots : ∀ slots : List (Option Reply), slots.length = tags.length →
      List.zipWith (fun tag _ => tag.1) tags slots = tags.map Prod.fst := by
    intro slots hlength
    apply List.ext_getElem
    · rw [List.length_zipWith, List.length_map, hlength, Nat.min_self]
    · intro i _ _
      rw [List.getElem_zipWith, List.getElem_map]
  change (List.zipWith _ tags (file _ (t.askAll _ s).1)).map Prod.fst = _
  rw [List.map_zipWith]
  apply hslots
  rw [length_file, List.length_replicate]

end Transport

end DataBlock
