import DataBlock.Proofs.Plan.Fewest
import Mathlib.Logic.Equiv.Basic
/-!
# Plans of lists in another order

A planner packs the tags of each data block by themselves, in the order of their
offsets.  So only the tags of a data block matter to its requests, and of their
order only that of tags at one offset: where the tags are moved to other
positions, the requests stay as they are and name the new positions.
-/

namespace DataBlock.Plan

def Item.relabel (place : Nat → Nat) (item : Item) : Item :=
  { item with index := place item.index }

def Request.relabel (place : Nat → Nat) (r : Request) : Request :=
  { r with items := r.items.map (Item.relabel place) }

/-- The tags that a request reads, with the bytes read for them. -/
def Request.contents (tags : List Tag) (r : Request) : List (Option Tag × Span) :=
  r.items.map fun item => (tags[item.index]?, item.span)

def numberedIn (block : UInt16) (tags : List Tag) : List (Tag × Nat) :=
  tags.zipIdx.filter fun entry => entry.1.block = block

/-- The position of the tag that has a place among the tags of its data block. -/
def placeOf (block : UInt16) (tags : List Tag) (rank : Nat) : Nat :=
  ((numberedIn block tags).map Prod.snd).getD rank 0

/-- Tags in another order, in which those at one offset of a data block come one
after the other as before. -/
structure Reordered (place : Equiv.Perm Nat) (tags moved : List Tag) : Prop where
  getElem?_place : ∀ i, moved[place i]? = tags[i]?
  stable : ∀ i j a b, tags[i]? = some a → tags[j]? = some b → a.block = b.block →
    a.byteOffset = b.byteOffset → i < j → place i < place j

/-- The tags of a data block in one list are those in another, moved to other
positions; those at one offset come one after the other as before. -/
structure Moved (block : UInt16) (place : Nat → Nat) (tags moved : List Tag) : Prop where
  getElem?_place : ∀ i tag, tags[i]? = some tag → tag.block = block → moved[place i]? = some tag
  exists_place : ∀ j tag, moved[j]? = some tag → tag.block = block →
    ∃ i, tags[i]? = some tag ∧ place i = j
  stable : ∀ i j a b, tags[i]? = some a → tags[j]? = some b → a.block = block →
    b.block = block → a.byteOffset = b.byteOffset → i < j → place i < place j

/-! ## Packing does not look at positions -/

theorem pack_relabel (p : Planner) (block : UInt16) (place : Nat → Nat) (current : List Item)
    (size : Nat) (items : List Item) :
    p.pack block (current.map (Item.relabel place)) size (items.map (Item.relabel place)) =
      (p.pack block current size items).map (Request.relabel place) := by
  induction items generalizing current size with
  | nil =>
      by_cases h : current = []
      · simp [Planner.pack, h]
      · simp [Planner.pack, h, Request.relabel]
  | cons item items ih =>
      have hspan : (item.relabel place).span = item.span := rfl
      simp only [List.map_cons, Planner.pack, List.length_map, ne_eq, List.map_eq_nil_iff, hspan]
      split
      · rw [List.map_cons, ← ih]
        rfl
      · rw [← ih, List.map_append]
        rfl

theorem mem_itemsIn_entries {block : UInt16} {item : Item} {tags : List Tag} :
    item ∈ itemsIn block (entries tags) ↔
      ∃ tag, tags[item.index]? = some tag ∧ tag.block = block ∧ tag.span = item.span := by
  rw [mem_itemsIn, mem_entries]

namespace Moved

variable {block : UInt16} {place : Nat → Nat} {tags moved : List Tag}

theorem mem_relabel_iff (h : Moved block place tags moved) (item : Item) :
    item ∈ (itemsIn block (entries tags)).map (Item.relabel place) ↔
      item ∈ itemsIn block (entries moved) := by
  rw [List.mem_map, mem_itemsIn_entries]
  constructor
  · rintro ⟨old, hold, rfl⟩
    obtain ⟨tag, htag, hblock, hspan⟩ := mem_itemsIn_entries.1 hold
    exact ⟨tag, h.getElem?_place _ tag htag hblock, hblock, hspan⟩
  · rintro ⟨tag, htag, hblock, hspan⟩
    obtain ⟨i, hi, hplace⟩ := h.exists_place _ tag htag hblock
    refine ⟨⟨i, item.span⟩, mem_itemsIn_entries.2 ⟨tag, hi, hblock, hspan⟩, ?_⟩
    rw [Item.relabel, hplace]

theorem before_relabel (h : Moved block place tags moved) {a b : Item}
    (ha : a ∈ itemsIn block (entries tags)) (hb : b ∈ itemsIn block (entries tags))
    (hab : a.Before b) : (a.relabel place).Before (b.relabel place) := by
  obtain ⟨tag, htag, hblock, hspan⟩ := mem_itemsIn_entries.1 ha
  obtain ⟨tag', htag', hblock', hspan'⟩ := mem_itemsIn_entries.1 hb
  rcases hab with hlt | ⟨heq, hindex⟩
  · exact .inl hlt
  · have hoffset : tag.byteOffset = tag'.byteOffset := by
      change tag.span.offset = tag'.span.offset
      rw [hspan, hspan', heq]
    exact .inr ⟨heq, h.stable _ _ _ _ htag htag' hblock hblock' hoffset hindex⟩

theorem sortByOffset_relabel (h : Moved block place tags moved) :
    (sortByOffset (itemsIn block (entries tags))).map (Item.relabel place) =
      sortByOffset (itemsIn block (entries moved)) := by
  have hsorted := sortByOffset_pairwise (itemsIn_entries_pairwise_index block tags)
  apply eq_of_ordered
  · apply List.pairwise_map.2
    apply hsorted.imp_of_mem
    intro a b ha hb hab
    exact h.before_relabel (mem_sortByOffset.1 ha) (mem_sortByOffset.1 hb) hab
  · exact sortByOffset_pairwise (itemsIn_entries_pairwise_index block moved)
  · intro item
    rw [mem_sortByOffset, ← h.mem_relabel_iff, List.mem_map, List.mem_map]
    simp only [mem_sortByOffset]

/-- The requests of the data block stay as they are but for the positions. -/
theorem filter_plan (h : Moved block place tags moved) (p : Planner) :
    (p.plan moved).filter (·.block = block) =
      ((p.plan tags).filter (·.block = block)).map (Request.relabel place) := by
  rw [Plan.filter_plan, Plan.filter_plan, ← h.sortByOffset_relabel, ← pack_relabel]
  rfl

end Moved

/-! ## Tags in another order -/

theorem Reordered.moved {place : Equiv.Perm Nat} {tags moved : List Tag}
    (h : Reordered place tags moved) (block : UInt16) : Moved block place tags moved where
  getElem?_place i tag htag _ := by rw [h.getElem?_place, htag]
  exists_place j tag htag _ := by
    refine ⟨place.symm j, ?_, place.apply_symm_apply j⟩
    rw [← h.getElem?_place, place.apply_symm_apply, htag]
  stable i j a b ha hb hblock hblock' hoffset hlt :=
    h.stable i j a b ha hb (hblock.trans hblock'.symm) hoffset hlt

/-- Requests that come by ascending data block are settled by those of each data
block. -/
theorem eq_of_filter_block_eq {rs rs' : List Request}
    (h : rs.Pairwise fun r s => r.block ≤ s.block) (h' : rs'.Pairwise fun r s => r.block ≤ s.block)
    (heq : ∀ block, rs.filter (·.block = block) = rs'.filter (·.block = block)) : rs = rs' := by
  induction rs generalizing rs' with
  | nil =>
      cases rs' with
      | nil => rfl
      | cons r' rs' => simpa using heq r'.block
  | cons r rs ih =>
      cases rs' with
      | nil => simpa using heq r.block
      | cons r' rs' =>
          rw [List.pairwise_cons] at h h'
          -- each head is among the requests of its data block on the other side
          have hle : r'.block ≤ r.block := by
            have hmem : r ∈ (r' :: rs').filter (·.block = r.block) := by
              rw [← heq]
              simp
            rcases List.mem_cons.1 (List.mem_of_mem_filter hmem) with rfl | hmem
            · exact UInt16.le_refl _
            · exact h'.1 r hmem
          have hge : r.block ≤ r'.block := by
            have hmem : r' ∈ (r :: rs).filter (·.block = r'.block) := by
              rw [heq]
              simp
            rcases List.mem_cons.1 (List.mem_of_mem_filter hmem) with rfl | hmem
            · exact UInt16.le_refl _
            · exact h.1 r' hmem
          have hblock : r'.block = r.block := UInt16.le_antisymm hle hge
          have hhead := heq r.block
          simp only [List.filter_cons, hblock, decide_true, if_true, List.cons.injEq] at hhead
          obtain ⟨rfl, -⟩ := hhead
          congr 1
          apply ih h.2 h'.2
          intro block
          have hfilter := heq block
          rw [List.filter_cons, List.filter_cons] at hfilter
          split at hfilter
          · exact (List.cons.inj hfilter).2
          · exact hfilter

theorem Reordered.plan_eq {place : Equiv.Perm Nat} {tags moved : List Tag}
    (h : Reordered place tags moved) (p : Planner) :
    p.plan moved = (p.plan tags).map (Request.relabel place) := by
  apply eq_of_filter_block_eq (plan_pairwise_block p moved)
  · exact List.pairwise_map.2 (plan_pairwise_block p tags)
  · intro block
    rw [(h.moved block).filter_plan p, List.filter_map]
    rfl

/-! ## The tags of one data block alone -/

theorem mem_numberedIn {block : UInt16} {tags : List Tag} {tag : Tag} {i : Nat} :
    (tag, i) ∈ numberedIn block tags ↔ tags[i]? = some tag ∧ tag.block = block := by
  rw [numberedIn, List.mem_filter, List.mk_mem_zipIdx_iff_getElem?, decide_eq_true_eq]

theorem numberedIn_pairwise (block : UInt16) (tags : List Tag) :
    (numberedIn block tags).Pairwise fun a b => a.2 < b.2 := by
  have hall : tags.zipIdx.Pairwise fun a b => a.2 < b.2 := by
    rw [← List.pairwise_map (f := Prod.snd) (R := (· < ·)), List.zipIdx_map_snd]
    exact List.pairwise_lt_range'
  exact hall.sublist List.filter_sublist

theorem filter_block_eq (block : UInt16) (tags : List Tag) :
    tags.filter (·.block = block) = (numberedIn block tags).map Prod.fst := by
  conv_lhs => rw [← List.zipIdx_map_fst 0 tags, List.filter_map]
  rfl

theorem getElem?_filter_block_iff {block : UInt16} {tags : List Tag} {rank : Nat} {tag : Tag} :
    (tags.filter (·.block = block))[rank]? = some tag ↔
      (numberedIn block tags)[rank]? = some (tag, placeOf block tags rank) := by
  rw [filter_block_eq, List.getElem?_map, Option.map_eq_some_iff]
  constructor
  · rintro ⟨⟨tag, i⟩, hentry, rfl⟩
    rw [placeOf, List.getD_eq_getElem?_getD, List.getElem?_map, hentry]
    rfl
  · intro hentry
    exact ⟨_, hentry, rfl⟩

theorem moved_filter_block (block : UInt16) (tags : List Tag) :
    Moved block (placeOf block tags) (tags.filter (·.block = block)) tags where
  getElem?_place rank tag htag _ := by
    have hmem := List.mem_of_getElem? (getElem?_filter_block_iff.1 htag)
    exact (mem_numberedIn.1 hmem).1
  exists_place i tag htag hblock := by
    obtain ⟨rank, hrank⟩ := List.mem_iff_getElem?.1 (mem_numberedIn.2 ⟨htag, hblock⟩)
    have hfilter : (tags.filter (·.block = block))[rank]? = some tag := by
      rw [filter_block_eq, List.getElem?_map, hrank]
      rfl
    have hplace := getElem?_filter_block_iff.1 hfilter
    rw [hrank, Option.some.injEq, Prod.mk.injEq] at hplace
    exact ⟨rank, hfilter, hplace.2.symm⟩
  stable rank rank' a b ha hb _ _ _ hlt := by
    obtain ⟨hrank, hfirst⟩ := List.getElem?_eq_some_iff.1 (getElem?_filter_block_iff.1 ha)
    obtain ⟨hrank', hsecond⟩ := List.getElem?_eq_some_iff.1 (getElem?_filter_block_iff.1 hb)
    have hpositions :=
      List.pairwise_iff_getElem.1 (numberedIn_pairwise block tags) rank rank' hrank hrank' hlt
    rwa [hfirst, hsecond] at hpositions

theorem filter_plan_filter_block (p : Planner) (block : UInt16) (tags : List Tag) :
    (p.plan (tags.filter (·.block = block))).filter (·.block = block) =
      p.plan (tags.filter (·.block = block)) := by
  apply List.filter_eq_self.2
  intro r hr
  obtain ⟨item, hitem⟩ := List.exists_mem_of_ne_nil _ (within_of_mem_plan hr).ne_nil
  obtain ⟨tag, htag, hblock⟩ := exists_tag_of_mem_plan hr hitem
  have hmem := List.mem_of_getElem? htag
  rw [← hblock]
  exact (List.mem_filter.1 hmem).2

/-- Requests that are moved along with their tags read the same. -/
theorem Moved.contents_plan {block : UInt16} {place : Nat → Nat} {tags moved : List Tag}
    (h : Moved block place tags moved) (p : Planner) :
    ((p.plan moved).filter (·.block = block)).map (Request.contents moved) =
      ((p.plan tags).filter (·.block = block)).map (Request.contents tags) := by
  rw [h.filter_plan, List.map_map]
  apply List.map_congr_left
  intro r hr
  obtain ⟨hplan, hblock⟩ := List.mem_filter.1 hr
  simp only [Function.comp_apply, Request.contents, Request.relabel, List.map_map]
  apply List.map_congr_left
  intro item hitem
  obtain ⟨tag, htag, htagBlock⟩ := exists_tag_of_mem_plan hplan hitem
  have hmoved := h.getElem?_place _ tag htag (htagBlock.trans (of_decide_eq_true hblock))
  simp only [Function.comp_apply, Item.relabel, hmoved, htag]

/-- A plan does not depend on the order of the tags, but for those at one offset of
a data block: where the tags are moved and these stay in order, the plan only
names their new positions.  Nor does it depend on other data blocks: the
requests for a data block are the plan of its tags alone, with the positions
they have among all tags, so that with any other tags around them the same tags
are read in the same requests. -/
theorem plan_reordered (p : Planner) (tags : List Tag) :
    (∀ place moved, Reordered place tags moved →
      p.plan moved = (p.plan tags).map (Request.relabel place)) ∧
    (∀ block, (p.plan tags).filter (·.block = block) =
      (p.plan (tags.filter (·.block = block))).map (Request.relabel (placeOf block tags))) ∧
    ∀ block others, others.filter (·.block = block) = tags.filter (·.block = block) →
      ((p.plan others).filter (·.block = block)).map (Request.contents others) =
        ((p.plan tags).filter (·.block = block)).map (Request.contents tags) := by
  refine ⟨fun place moved h => h.plan_eq p, ?_, ?_⟩
  · intro block
    rw [(moved_filter_block block tags).filter_plan p, filter_plan_filter_block]
  · intro block others hothers
    rw [(moved_filter_block block others).contents_plan p, hothers,
      (moved_filter_block block tags).contents_plan p]

def lowerFirst : List Tag :=
  sharedOffset.filter (·.block = 1) ++ sharedOffset.filter (·.block = 4)

theorem plan_lowerFirst :
    Reordered (Equiv.swap 0 1) sharedOffset lowerFirst ∧
    Planner.standard.plan lowerFirst =
      (Planner.standard.plan sharedOffset).map (Request.relabel (Equiv.swap 0 1)) ∧
    (Planner.standard.plan sharedOffset).map (Request.relabel (Equiv.swap 0 1)) =
      [⟨1, [⟨0, ⟨0, 4⟩⟩]⟩, ⟨4, [⟨1, ⟨6, 2⟩⟩, ⟨2, ⟨6, 2⟩⟩]⟩] ∧
    lowerFirst.filter (·.block = 4) = sharedOffset.filter (·.block = 4) ∧
    ((Planner.standard.plan lowerFirst).filter (·.block = 4)).map (Request.contents lowerFirst) =
      ((Planner.standard.plan sharedOffset).filter (·.block = 4)).map
        (Request.contents sharedOffset) := by
  have hreordered : Reordered (Equiv.swap 0 1) sharedOffset lowerFirst := by
    constructor
    · rintro (_ | _ | i)
      · rfl
      · rfl
      · rw [Equiv.swap_apply_of_ne_of_ne (by omega) (by omega)]
        rfl
    · intro i j a b ha hb hblock _ hlt
      have hother : ¬ (i = 0 ∧ j = 1) := by
        rintro ⟨rfl, rfl⟩
        obtain rfl := Option.some.inj ha
        obtain rfl := Option.some.inj hb
        exact absurd hblock (by decide)
      rw [Equiv.swap_apply_def, Equiv.swap_apply_def]
      split_ifs <;> omega
  have hplan : Planner.standard.plan sharedOffset =
      [⟨1, [⟨1, ⟨0, 4⟩⟩]⟩, ⟨4, [⟨0, ⟨6, 2⟩⟩, ⟨2, ⟨6, 2⟩⟩]⟩] := by
    cbv
  have h := plan_reordered Planner.standard sharedOffset
  refine ⟨hreordered, h.1 _ _ hreordered, ?_, rfl, h.2.2 4 lowerFirst rfl⟩
  rw [hplan]
  rfl

end DataBlock.Plan
