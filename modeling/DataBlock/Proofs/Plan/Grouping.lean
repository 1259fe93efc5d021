import DataBlock.Plan
import Mathlib.Data.List.Basic
/-!
# Tags by data block and offset

A planner groups the tags by data block and sorts each group by offset.  Here
both are described by the entries of the tags: an entry is a data block with an
item, and the entries come in the order of the tags.  The groups are the
entries of each data block, and the sort puts entries before others by offset
and, at one offset, by index.
-/

namespace DataBlock.Plan

structure Entry where
  block : UInt16
  item : Item
  deriving DecidableEq, Repr

def entries (tags : List Tag) : List Entry :=
  tags.zipIdx.map fun (tag, index) => ⟨tag.block, index, tag.span⟩

def itemsIn (block : UInt16) (es : List Entry) : List Item :=
  (es.filter (·.block = block)).map (·.item)

/-- Items by offset, those at one offset by index. -/
def Item.Before (a b : Item) : Prop :=
  a.span.offset < b.span.offset ∨ a.span.offset = b.span.offset ∧ a.index < b.index

/-- Entries by data block, then by offset, then as the tags were given. -/
def Entry.Before (a b : Entry) : Prop :=
  a.block < b.block ∨ a.block = b.block ∧ a.item.Before b.item

theorem mem_entries {e : Entry} {tags : List Tag} :
    e ∈ entries tags ↔
      ∃ tag, tags[e.item.index]? = some tag ∧ tag.block = e.block ∧ tag.span = e.item.span := by
  rcases e with ⟨block, index, span⟩
  simp only [entries, List.mem_map, Prod.exists, List.mk_mem_zipIdx_iff_getElem?,
    Entry.mk.injEq, Item.mk.injEq]
  constructor
  · intro h
    rcases h with ⟨tag, i, htag, hblock, hindex, hspan⟩
    subst hindex
    exact ⟨tag, htag, hblock, hspan⟩
  · intro h
    rcases h with ⟨tag, htag, hblock, hspan⟩
    exact ⟨tag, index, htag, hblock, rfl, hspan⟩

theorem index_entries (tags : List Tag) :
    (entries tags).map (·.item.index) = List.range tags.length := by
  simp only [entries, List.map_map]
  rw [List.range_eq_range', ← List.zipIdx_map_snd 0 tags]
  rfl

theorem entries_pairwise_index (tags : List Tag) :
    (entries tags).Pairwise fun a b => a.item.index < b.item.index := by
  rw [← List.pairwise_map (f := fun e : Entry => e.item.index), index_entries]
  exact List.pairwise_lt_range

theorem nodup_entries (tags : List Tag) : (entries tags).Nodup := by
  have hindex := entries_pairwise_index tags
  apply hindex.imp
  intro a b hlt heq
  rw [heq] at hlt
  omega

theorem Entry.Before.irrefl (e : Entry) : ¬ e.Before e := by
  simp [Entry.Before, Item.Before]

theorem mem_itemsIn {block : UInt16} {item : Item} {es : List Entry} :
    item ∈ itemsIn block es ↔ (⟨block, item⟩ : Entry) ∈ es := by
  simp only [itemsIn, List.mem_map, List.mem_filter, decide_eq_true_eq]
  constructor
  · intro h
    rcases h with ⟨e, ⟨hmem, hblock⟩, hitem⟩
    subst hblock hitem
    exact hmem
  · intro hmem
    exact ⟨_, ⟨hmem, rfl⟩, rfl⟩

theorem itemsIn_append_singleton (block : UInt16) (es : List Entry) (e : Entry) :
    itemsIn block (es ++ [e]) =
      itemsIn block es ++ if e.block = block then [e.item] else [] := by
  by_cases h : e.block = block <;> simp [itemsIn, h]

theorem itemsIn_entries_pairwise_index (block : UInt16) (tags : List Tag) :
    (itemsIn block (entries tags)).Pairwise fun a b => a.index < b.index := by
  rw [itemsIn, List.pairwise_map]
  exact (entries_pairwise_index tags).filter _

/-! ## Groups

A group is found by its data block, which the groups have in ascending order.
Adding an item keeps that order and changes one group, so that grouping tags
one after the other keeps `Hold` between the groups and the tags so far.
-/

namespace Groups

def Ascending (g : Groups) : Prop :=
  g.Pairwise fun a b => a.1 < b.1

def items (g : Groups) (block : UInt16) : List Item :=
  (g.lookup block).getD []

theorem items_of_mem {g : Groups} (hg : g.Ascending) {block : UInt16} {xs : List Item}
    (h : (block, xs) ∈ g) : g.items block = xs := by
  induction g with
  | nil => simp at h
  | cons head g ih =>
      rcases head with ⟨other, ys⟩
      rw [Ascending, List.pairwise_cons] at hg
      rcases List.mem_cons.1 h with heq | hmem
      · rw [Prod.mk.injEq] at heq
        rw [heq.1, heq.2]
        simp [items]
      · have hlt : other < block := hg.1 _ hmem
        have hne : block ≠ other := (UInt16.ne_of_lt hlt).symm
        have hrest : (g.lookup block).getD [] = xs := ih hg.2 hmem
        simpa [items, List.lookup_cons, beq_false_of_ne hne] using hrest

theorem items_of_forall_ne {g : Groups} {block : UInt16} (h : ∀ group ∈ g, block ≠ group.1) :
    g.items block = [] := by
  have hnone : g.lookup block = none := by
    simpa [List.lookup_eq_none_iff] using h
  simp [items, hnone]

theorem key_of_mem_add {g : Groups} {block : UInt16} {item : Item} {group : UInt16 × List Item}
    (h : group ∈ g.add block item) : group.1 = block ∨ ∃ other ∈ g, other.1 = group.1 := by
  induction g with
  | nil =>
      have hgroup : group = (block, [item]) := by simpa [add] using h
      rw [hgroup]
      exact .inl rfl
  | cons head g ih =>
      simp only [add] at h
      split at h
      · rcases List.mem_cons.1 h with heq | hmem
        · rw [heq]
          exact .inl rfl
        · exact .inr ⟨group, hmem, rfl⟩
      · split at h
        · rcases List.mem_cons.1 h with heq | hmem
          · rw [heq]
            exact .inr ⟨head, List.mem_cons_self, rfl⟩
          · exact .inr ⟨group, List.mem_cons_of_mem _ hmem, rfl⟩
        · rcases List.mem_cons.1 h with heq | hmem
          · rw [heq]
            exact .inr ⟨head, List.mem_cons_self, rfl⟩
          · rcases ih hmem with hblock | ⟨other, hother, hkey⟩
            · exact .inl hblock
            · exact .inr ⟨other, List.mem_cons_of_mem _ hother, hkey⟩

theorem ascending_add {g : Groups} (hg : g.Ascending) (block : UInt16) (item : Item) :
    Ascending (g.add block item) := by
  induction g with
  | nil => simp [add, Ascending]
  | cons head g ih =>
      rcases List.pairwise_cons.1 hg with ⟨hhead, htail⟩
      simp only [add]
      split
      · next hlt =>
        apply List.pairwise_cons.2
        refine ⟨?_, hg⟩
        intro group hmem
        rcases List.mem_cons.1 hmem with heq | hmem
        · rw [heq]
          exact hlt
        · exact UInt16.lt_trans hlt (hhead _ hmem)
      · next hle =>
        split
        · exact List.pairwise_cons.2 ⟨hhead, htail⟩
        · next hne =>
          apply List.pairwise_cons.2
          refine ⟨?_, ih htail⟩
          intro group hmem
          rcases key_of_mem_add hmem with hkey | ⟨other, hother, hkey⟩
          · rw [hkey]
            exact UInt16.lt_of_le_of_ne (UInt16.not_lt.1 hle) (Ne.symm hne)
          · rw [← hkey]
            exact hhead _ hother

theorem mem_add {g : Groups} (hg : g.Ascending) {block other : UInt16} {item : Item}
    {xs : List Item} :
    (other, xs) ∈ g.add block item ↔
      if other = block then xs = g.items block ++ [item] else (other, xs) ∈ g := by
  induction g with
  | nil =>
      by_cases h : other = block <;> simp [add, items, h]
  | cons head g ih =>
      rcases head with ⟨key, ys⟩
      rcases List.pairwise_cons.1 hg with ⟨hhead, htail⟩
      have hkey : ∀ zs, (key, zs) ∉ g := by
        intro zs hmem
        exact UInt16.lt_irrefl key (hhead (key, zs) hmem)
      simp only [add]
      split
      · next hlt =>
        -- all data blocks lie above, so the new group is the only one of its own
        have hfresh : ∀ group ∈ (key, ys) :: g, block ≠ group.1 := by
          intro group hmem
          rcases List.mem_cons.1 hmem with heq | hmem
          · rw [heq]
            exact UInt16.ne_of_lt hlt
          · exact UInt16.ne_of_lt (UInt16.lt_trans hlt (hhead _ hmem))
        rw [items_of_forall_ne hfresh, List.mem_cons]
        by_cases h : other = block
        · have habsent : (block, xs) ∉ (key, ys) :: g := by
            intro hmem
            exact hfresh _ hmem rfl
          simp [h, habsent]
        · simp [h]
      · split
        · next heq =>
          subst heq
          by_cases h : other = block
          · simp [h, hkey, items]
          · simp [h]
        · next hne =>
          have hitems : Groups.items ((key, ys) :: g) block = Groups.items g block := by
            simp [items, List.lookup_cons, beq_false_of_ne hne]
          rw [hitems, List.mem_cons, ih htail]
          by_cases h : other = block
          · simp [h, hne]
          · simp [h]

/-- Groups that hold entries: they ascend, and they are the data blocks of the
entries with their items. -/
structure Hold (g : Groups) (es : List Entry) : Prop where
  ascending : g.Ascending
  mem_iff : ∀ block xs, (block, xs) ∈ g ↔ xs = itemsIn block es ∧ xs ≠ []

theorem Hold.items_eq {g : Groups} {es : List Entry} (h : g.Hold es) (block : UInt16) :
    g.items block = itemsIn block es := by
  by_cases hnone : itemsIn block es = []
  · rw [hnone]
    apply items_of_forall_ne
    intro group hmem heq
    have hgroup := (h.mem_iff _ _).1 hmem
    have hempty : group.2 = [] := by rw [hgroup.1, ← heq, hnone]
    exact hgroup.2 hempty
  · have hmem := (h.mem_iff block _).2 ⟨rfl, hnone⟩
    exact items_of_mem h.ascending hmem

theorem Hold.add {g : Groups} {es : List Entry} (h : g.Hold es) (e : Entry) :
    Hold (g.add e.block e.item) (es ++ [e]) where
  ascending := ascending_add h.ascending _ _
  mem_iff block xs := by
    rw [mem_add h.ascending, itemsIn_append_singleton, h.items_eq]
    by_cases hblock : block = e.block
    · simp only [hblock, if_true]
      constructor
      · intro hxs
        exact ⟨hxs, by simp [hxs]⟩
      · intro hxs
        exact hxs.1
    · simp only [hblock, Ne.symm hblock, if_false, List.append_nil]
      exact h.mem_iff block xs

theorem hold_nil : Hold [] [] where
  ascending := .nil
  mem_iff block xs := by simp [itemsIn]

end Groups

/-- The groups of tags hold the entries of the tags. -/
theorem hold_group (tags : List Tag) : (group tags).Hold (entries tags) := by
  -- the groups built so far hold the entries so far, from whatever start
  have hfold : ∀ (rest : List (Tag × Nat)) (g : Groups) (es : List Entry), g.Hold es →
      Groups.Hold
        (rest.foldl (fun g (tag, index) => g.add tag.block ⟨index, tag.span⟩) g)
        (es ++ rest.map fun (tag, index) => ⟨tag.block, index, tag.span⟩) := by
    intro rest
    induction rest with
    | nil => simp
    | cons head rest ih =>
        intro g es h
        rw [List.foldl_cons, List.map_cons, List.append_cons]
        apply ih
        exact h.add ⟨head.1.block, head.2, head.1.span⟩
  exact hfold tags.zipIdx [] [] Groups.hold_nil

/-! ## The order within a group -/

/-- A stable sort keeps a relation between neighbours that it need not swap. -/
theorem pairwise_mergeSort_of_pairwise {α : Type} (le : α → α → Bool) {R : α → α → Prop}
    (trans : ∀ a b c, le a b → le b c → le a c) (total : ∀ a b, le a b || le b a)
    {xs : List α} (h : xs.Pairwise R) :
    (xs.mergeSort le).Pairwise fun a b => le a b ∧ (le b a → R a b) := by
  -- sorting by `le` and then by the place in `xs` comes to the same
  rw [← List.mergeSort_zipIdx, List.pairwise_map]
  have hsorted := List.pairwise_mergeSort (List.zipIdxLE_trans trans)
    (List.zipIdxLE_total total) xs.zipIdx
  have hplaces : (xs.zipIdx.mergeSort (List.zipIdxLE le)).Pairwise fun a b => a.2 ≠ b.2 := by
    apply List.pairwise_map.1
    rw [← List.Nodup, ((List.mergeSort_perm _ _).map _).nodup_iff, List.zipIdx_map_snd]
    exact List.nodup_range'
  apply (hsorted.and hplaces).imp_of_mem
  intro x y hx hy hxy
  rcases x with ⟨a, i⟩
  rcases y with ⟨b, j⟩
  rcases hxy with ⟨hle, hne⟩
  rw [List.mem_mergeSort, List.mk_mem_zipIdx_iff_getElem?] at hx hy
  have hab : le a b = true := by
    by_contra hab
    simp [List.zipIdxLE, hab] at hle
  refine ⟨hab, ?_⟩
  intro hba
  have hij : i ≤ j := by simpa [List.zipIdxLE, hab, hba] using hle
  have hlt : i < j := by omega
  rcases List.getElem?_eq_some_iff.1 hx with ⟨hi, ha⟩
  rcases List.getElem?_eq_some_iff.1 hy with ⟨hj, hb⟩
  have hR := List.pairwise_iff_getElem.1 h i j hi hj hlt
  rwa [ha, hb] at hR

theorem mem_sortByOffset {item : Item} {items : List Item} :
    item ∈ sortByOffset items ↔ item ∈ items :=
  List.mem_mergeSort

theorem sortByOffset_pairwise {items : List Item}
    (h : items.Pairwise fun a b => a.index < b.index) :
    (sortByOffset items).Pairwise Item.Before := by
  have hsorted := pairwise_mergeSort_of_pairwise
    (fun a b : Item => a.span.offset ≤ b.span.offset)
    (fun a b c hab hbc => by
      simp only [decide_eq_true_eq] at hab hbc ⊢
      exact UInt32.le_trans hab hbc)
    (fun a b => by simpa using UInt32.le_total a.span.offset b.span.offset) h
  apply hsorted.imp
  intro a b hab
  simp only [decide_eq_true_eq] at hab
  by_cases heq : a.span.offset = b.span.offset
  · have hback : b.span.offset ≤ a.span.offset := UInt32.le_of_eq heq.symm
    exact .inr ⟨heq, hab.2 hback⟩
  · exact .inl (UInt32.lt_of_le_of_ne hab.1 heq)

end DataBlock.Plan
