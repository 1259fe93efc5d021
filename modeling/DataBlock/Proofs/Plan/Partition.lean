import DataBlock.Proofs.Plan.Grouping
import Mathlib.Data.List.Permutation
/-!
# A plan holds every tag once, in order

The items of a plan's requests, read off in order, are the entries of the tags
sorted by data block, offset and index: packing cuts a group into requests and
neither loses, repeats nor moves an item.
-/

namespace DataBlock.Plan

def Request.entries (r : Request) : List Entry :=
  r.items.map (Entry.mk r.block)

def placed (requests : List Request) : List Entry :=
  requests.flatMap Request.entries

@[simp] theorem placed_cons (r : Request) (requests : List Request) :
    placed (r :: requests) = r.entries ++ placed requests := rfl

theorem mem_placed_of_mem {requests : List Request} {r : Request} {item : Item}
    (hr : r ∈ requests) (hitem : item ∈ r.items) :
    (⟨r.block, item⟩ : Entry) ∈ placed requests := by
  apply List.mem_flatMap.2
  exact ⟨r, hr, List.mem_map.2 ⟨item, hitem, rfl⟩⟩

theorem index_placed (requests : List Request) :
    (placed requests).map (·.item.index) =
      requests.flatMap fun r => r.items.map (·.index) := by
  simp only [placed, Request.entries, List.map_flatMap, List.map_map]
  rfl

theorem item_placed (requests : List Request) :
    (placed requests).map (·.item) = (requests.map (·.items)).flatten := by
  simp only [placed, Request.entries, List.map_flatMap, List.map_map, ← List.flatMap_def]
  congr 1
  funext r
  exact List.map_id _

/-! ## Packing a group -/

theorem placed_pack (p : Planner) (block : UInt16) (current : List Item) (size : Nat)
    (items : List Item) :
    placed (p.pack block current size items) = (current ++ items).map (Entry.mk block) := by
  -- whether the current request is closed or goes on, its items come first
  induction items generalizing current size with
  | nil =>
      by_cases h : current = [] <;> simp [Planner.pack, h, placed, Request.entries]
  | cons item items ih =>
      simp only [Planner.pack]
      split
      · rw [placed_cons, ih]
        simp [Request.entries]
      · rw [ih]
        simp

theorem block_of_mem_pack {p : Planner} {block : UInt16} {current : List Item} {size : Nat}
    {items : List Item} {r : Request} (h : r ∈ p.pack block current size items) :
    r.block = block := by
  induction items generalizing current size with
  | nil =>
      simp only [Planner.pack] at h
      split at h
      · simp at h
      · have hr : r = ⟨block, current⟩ := by simpa using h
        rw [hr]
  | cons item items ih =>
      simp only [Planner.pack] at h
      split at h
      · rcases List.mem_cons.1 h with heq | hmem
        · rw [heq]
        · exact ih hmem
      · exact ih h

/-! ## The whole plan -/

theorem placed_plan (p : Planner) (tags : List Tag) :
    placed (p.plan tags) =
      (group tags).flatMap fun (block, items) => (sortByOffset items).map (Entry.mk block) := by
  simp only [placed, Planner.plan, List.flatMap_assoc]
  congr 1
  funext ⟨block, items⟩
  exact placed_pack p block [] 0 (sortByOffset items)

theorem mem_placed_plan {p : Planner} {tags : List Tag} {e : Entry} :
    e ∈ placed (p.plan tags) ↔ e ∈ entries tags := by
  rcases e with ⟨block, item⟩
  simp only [placed_plan, List.mem_flatMap, List.mem_map, Prod.exists, mem_sortByOffset,
    (hold_group tags).mem_iff, Entry.mk.injEq]
  rw [← mem_itemsIn]
  constructor
  · intro h
    rcases h with ⟨_, _, ⟨hitems, _⟩, _, hmem, hblock, hitem⟩
    rwa [hitems, hblock, hitem] at hmem
  · intro hitem
    have hne : itemsIn block (entries tags) ≠ [] := List.ne_nil_of_mem hitem
    exact ⟨block, _, ⟨rfl, hne⟩, item, hitem, rfl, rfl⟩

theorem exists_tag_of_mem_plan {p : Planner} {tags : List Tag} {r : Request} {item : Item}
    (hr : r ∈ p.plan tags) (hitem : item ∈ r.items) :
    ∃ tag, tags[item.index]? = some tag ∧ tag.block = r.block := by
  obtain ⟨tag, htag, hblock, -⟩ := mem_entries.1 (mem_placed_plan.1 (mem_placed_of_mem hr hitem))
  exact ⟨tag, htag, hblock⟩

theorem placed_plan_pairwise (p : Planner) (tags : List Tag) :
    (placed (p.plan tags)).Pairwise Entry.Before := by
  rw [placed_plan, List.pairwise_flatMap]
  have hgroup := hold_group tags
  constructor
  · intro ⟨block, items⟩ hmem
    have hitems : items = itemsIn block (entries tags) := ((hgroup.mem_iff _ _).1 hmem).1
    have hindex := itemsIn_entries_pairwise_index block tags
    rw [← hitems] at hindex
    apply List.pairwise_map.2
    apply (sortByOffset_pairwise hindex).imp
    intro a b hab
    exact .inr ⟨rfl, hab⟩
  · apply hgroup.ascending.imp
    intro a b hlt x hx y hy
    rcases List.mem_map.1 hx with ⟨_, _, hx⟩
    rcases List.mem_map.1 hy with ⟨_, _, hy⟩
    rw [← hx, ← hy]
    exact .inl hlt

theorem placed_plan_perm (p : Planner) (tags : List Tag) :
    (placed (p.plan tags)).Perm (entries tags) := by
  -- both have the same members, and neither has one of them twice
  have hnodup : (placed (p.plan tags)).Nodup := by
    apply (placed_plan_pairwise p tags).imp
    intro a b h heq
    rw [heq] at h
    exact Entry.Before.irrefl b h
  rw [List.perm_ext_iff_of_nodup hnodup (nodup_entries tags)]
  intro e
  exact mem_placed_plan

theorem index_plan_perm (p : Planner) (tags : List Tag) :
    ((p.plan tags).flatMap fun r => r.items.map (·.index)).Perm (List.range tags.length) := by
  rw [← index_placed, ← index_entries]
  exact (placed_plan_perm p tags).map _

theorem plan_pairwise_block (p : Planner) (tags : List Tag) :
    (p.plan tags).Pairwise fun r s => r.block ≤ s.block := by
  rw [Planner.plan, List.pairwise_flatMap]
  constructor
  · intro ⟨block, items⟩ _
    apply List.pairwise_of_forall_mem_list
    intro r hr s hs
    rw [block_of_mem_pack hr, block_of_mem_pack hs]
    exact UInt16.le_refl _
  · apply (hold_group tags).ascending.imp
    intro a b hlt r hr s hs
    rw [block_of_mem_pack hr, block_of_mem_pack hs]
    exact UInt16.le_of_lt hlt

/-- A plan is a partition of the tags.  Read off in order, the items of its
requests are the entries of all tags, strictly ascending by data block, offset
and index.  So every index occurs in one item of one request, the requests come
by ascending data block, each holds tags of its own data block with their
spans, and tags at one offset of a data block keep the order of the caller. -/
theorem plan_partition (p : Planner) (tags : List Tag) :
    (placed (p.plan tags)).Perm (entries tags) ∧
    (placed (p.plan tags)).Pairwise Entry.Before ∧
    ((p.plan tags).flatMap fun r => r.items.map (·.index)).Perm (List.range tags.length) ∧
    (p.plan tags).Pairwise (fun r s => r.block ≤ s.block) ∧
    (∀ r ∈ p.plan tags, ∀ item ∈ r.items,
      ∃ tag, tags[item.index]? = some tag ∧ tag.block = r.block ∧ tag.span = item.span) ∧
    (placed (p.plan tags)).Pairwise fun a b =>
      a.block = b.block → a.item.span.offset = b.item.span.offset →
        a.item.index < b.item.index := by
  have hsorted := placed_plan_pairwise p tags
  refine ⟨placed_plan_perm p tags, hsorted, index_plan_perm p tags,
    plan_pairwise_block p tags, ?_, ?_⟩
  · intro r hr item hitem
    have hplaced := mem_placed_of_mem hr hitem
    exact mem_entries.1 (mem_placed_plan.1 hplaced)
  · apply hsorted.imp
    intro a b h hblock hoffset
    simpa [Entry.Before, Item.Before, hblock, hoffset] using h

/-- Two tags at one offset of a data block, and between the two a tag of a lower
data block. -/
def sharedOffset : List Tag :=
  [⟨⟨4, 6, 0, .int, none⟩, rfl⟩, ⟨⟨1, 0, 0, .real, none⟩, rfl⟩, ⟨⟨4, 6, 0, .word, none⟩, rfl⟩]

theorem plan_sharedOffset :
    (⟨4, [⟨0, ⟨6, 2⟩⟩, ⟨2, ⟨6, 2⟩⟩]⟩ : Request) ∈ Planner.standard.plan sharedOffset ∧
    (∃ tag, sharedOffset[2]? = some tag ∧ tag.block = 4 ∧ tag.span = ⟨6, 2⟩) ∧
    (placed (Planner.standard.plan sharedOffset)).Pairwise Entry.Before := by
  have hplan : Planner.standard.plan sharedOffset =
      [⟨1, [⟨1, ⟨0, 4⟩⟩]⟩, ⟨4, [⟨0, ⟨6, 2⟩⟩, ⟨2, ⟨6, 2⟩⟩]⟩] := by
    cbv
  have hrequest : (⟨4, [⟨0, ⟨6, 2⟩⟩, ⟨2, ⟨6, 2⟩⟩]⟩ : Request) ∈
      Planner.standard.plan sharedOffset := by
    simp [hplan]
  have h := plan_partition Planner.standard sharedOffset
  rcases h with ⟨_, hsorted, _, _, hitems, _⟩
  exact ⟨hrequest, hitems _ hrequest ⟨2, ⟨6, 2⟩⟩ (by decide), hsorted⟩

end DataBlock.Plan
