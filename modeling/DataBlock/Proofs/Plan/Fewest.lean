import DataBlock.Proofs.Plan.Budget
import DataBlock.Proofs.Plan.Partition
import Mathlib.Order.Bounds.Basic
/-!
# A plan has the fewest requests

The items of a data block, in the order they are read in, can be cut into
requests in many ways.  Closing a request only before an item that it has no
room for is the best of them: after any number of requests the planner has taken
at least as many items as another cut into as many runs.
-/

namespace DataBlock.Plan

/-- A run of items that may be those of one request: within the limits, or a
single item of any size. -/
structure Fits (pduSize maxItems : Nat) (run : List Item) : Prop where
  ne_nil : run ≠ []
  length_le : run.length ≤ maxItems
  size_le : run.length = 1 ∨ requestHeader + (run.map Item.size).sum ≤ pduSize

/-- A cut of the items of a data block into runs.  The items are those of the
tags, by offset and at one offset by index. -/
structure Cut (pduSize maxItems : Nat) (tags : List Tag) (block : UInt16)
    (runs : List (List Item)) : Prop where
  ordered : runs.flatten.Pairwise Item.Before
  mem_iff : ∀ item, item ∈ runs.flatten ↔ (⟨block, item⟩ : Entry) ∈ entries tags
  fits : ∀ run ∈ runs, Fits pduSize maxItems run

/-! ## The order of the items -/

theorem Item.Before.irrefl (a : Item) : ¬ a.Before a := by
  simp [Item.Before]

theorem Item.Before.asymm {a b : Item} (h : a.Before b) : ¬ b.Before a := by
  simp only [Item.Before, UInt32.lt_iff_toNat_lt, ← UInt32.toNat_inj] at h ⊢
  omega

theorem eq_of_ordered {xs ys : List Item} (hxs : xs.Pairwise Item.Before)
    (hys : ys.Pairwise Item.Before) (hmem : ∀ item, item ∈ xs ↔ item ∈ ys) : xs = ys := by
  have hnodup : ∀ {zs : List Item}, zs.Pairwise Item.Before → zs.Nodup := by
    intro zs hzs
    apply hzs.imp
    rintro a b hab rfl
    exact hab.irrefl
  have hperm : xs.Perm ys := (List.perm_ext_iff_of_nodup (hnodup hxs) (hnodup hys)).2 hmem
  apply hperm.eq_of_pairwise _ hxs hys
  intro a b _ _ hab hba
  exact absurd hba hab.asymm

/-! ## Closing a request late -/

/-- A run that reaches past a full request does not fit. -/
theorem not_fits_of_full {p : Planner} {current before after : List Item} {size : Nat}
    {item : Item} (h : Filling p current size)
    (hfull : p.maxItems ≤ current.length ∨
      current ≠ [] ∧ p.pduSize < size + item.size + requestHeader) :
    ¬ Fits p.pduSize p.maxItems (before ++ current ++ item :: after) := by
  intro hfits
  have hlength := hfits.length_le
  have hsize := hfits.size_le
  have hbytes := h.size_eq
  simp only [List.length_append, List.length_cons, List.map_append, List.map_cons,
    List.sum_append, List.sum_cons] at hlength hsize
  rcases hfull with hmany | ⟨hne, hlarge⟩
  · omega
  · have hpos := List.length_pos_iff.2 hne
    omega

/-- The planner stays ahead of any other cut: runs that begin no later than the
request being filled are at least as many as the requests still to come. -/
theorem length_pack_le {p : Planner} {block : UInt16} {current before items : List Item}
    {size : Nat} {runs : List (List Item)} (h : Filling p current size)
    (hfits : ∀ run ∈ runs, Fits p.pduSize p.maxItems run)
    (hruns : runs.flatten = before ++ current ++ items) :
    (p.pack block current size items).length ≤ runs.length := by
  induction items generalizing current size before runs with
  | nil =>
      by_cases hne : current = []
      · simp [Planner.pack, hne]
      · have hcut : runs ≠ [] := by
          rintro rfl
          simp_all
        rw [Planner.pack, if_neg hne, List.length_singleton]
        exact List.length_pos_iff.2 hcut
  | cons item items ih =>
      simp only [Planner.pack]
      split
      · next hfull =>
        cases runs with
        | nil => simp at hruns
        | cons first rest =>
          -- the first run ends before the item, so the rest of the cut begins no later
          have hrest : ∀ run ∈ rest, Fits p.pduSize p.maxItems run := by
            intro run hrun
            exact hfits run (List.mem_cons_of_mem _ hrun)
          rw [List.flatten_cons] at hruns
          rcases List.append_eq_append_iff.1 hruns with
            ⟨kept, hkept, hflatten⟩ | ⟨past, hfirst, hitems⟩
          · rw [List.append_cons] at hflatten
            exact Nat.succ_le_succ (ih (filling_singleton p item) hrest hflatten)
          · rcases past with _ | ⟨other, past⟩
            · rw [List.nil_append] at hitems
              have hflatten : rest.flatten = [] ++ [item] ++ items := by simpa using hitems.symm
              exact Nat.succ_le_succ (ih (filling_singleton p item) hrest hflatten)
            · rw [List.cons_append, List.cons.injEq] at hitems
              rw [← hitems.1] at hfirst
              have hover := hfits first List.mem_cons_self
              rw [hfirst] at hover
              exact absurd hover (not_fits_of_full h hfull)
      · next hroom =>
        rw [List.append_cons, List.append_assoc before] at hruns
        exact ih (h.concat hroom) hfits hruns

/-! ## The requests of a data block -/

def runsOf (block : UInt16) (requests : List Request) : List (List Item) :=
  (requests.filter (·.block = block)).map (·.items)

theorem Request.Within.fits {r : Request} {pduSize maxItems : Nat}
    (h : r.Within pduSize maxItems) : Fits pduSize maxItems r.items where
  ne_nil := h.ne_nil
  length_le := h.length_le
  size_le := by
    rw [← r.pduSize_eq]
    by_cases hone : r.items.length = 1
    · exact .inl hone
    · exact .inr (h.pduSize_le hone)

theorem filter_pack (p : Planner) (block other : UInt16) (items : List Item) :
    (p.pack other [] 0 items).filter (·.block = block) =
      if other = block then p.pack other [] 0 items else [] := by
  split
  · next heq =>
    apply List.filter_eq_self.2
    intro r hr
    rw [block_of_mem_pack hr]
    exact decide_eq_true heq
  · next hne =>
    apply List.filter_eq_nil_iff.2
    intro r hr
    rw [block_of_mem_pack hr]
    simpa using hne

theorem filter_flatMap_pack (p : Planner) (block : UInt16) {g : Groups} (hg : g.Ascending) :
    (g.flatMap fun (other, items) => p.pack other [] 0 (sortByOffset items)).filter
      (·.block = block) = p.pack block [] 0 (sortByOffset (g.items block)) := by
  induction g with
  | nil => simp [Groups.items, sortByOffset, Planner.pack]
  | cons head g ih =>
      rcases head with ⟨other, items⟩
      rcases List.pairwise_cons.1 hg with ⟨hhead, htail⟩
      rw [List.flatMap_cons, List.filter_append, filter_pack, ih htail]
      by_cases heq : other = block
      · have hnone : Groups.items g block = [] := by
          apply Groups.items_of_forall_ne
          intro group hmem
          rw [← heq]
          exact UInt16.ne_of_lt (hhead group hmem)
        have hitems : Groups.items ((other, items) :: g) block = items := by
          simp [Groups.items, heq]
        rw [if_pos heq, hnone, hitems, heq]
        simp [sortByOffset, Planner.pack]
      · have hitems : Groups.items ((other, items) :: g) block = Groups.items g block := by
          simp [Groups.items, List.lookup_cons, beq_false_of_ne (Ne.symm heq)]
        rw [if_neg heq, hitems, List.nil_append]

/-- The requests of a data block are packed from its items, whatever other data
blocks there are. -/
theorem filter_plan (p : Planner) (tags : List Tag) (block : UInt16) :
    (p.plan tags).filter (·.block = block) =
      p.pack block [] 0 (sortByOffset (itemsIn block (entries tags))) := by
  have hgroup := hold_group tags
  rw [← hgroup.items_eq block]
  exact filter_flatMap_pack p block hgroup.ascending

theorem flatten_runsOf_plan (p : Planner) (tags : List Tag) (block : UInt16) :
    (runsOf block (p.plan tags)).flatten = sortByOffset (itemsIn block (entries tags)) := by
  rw [runsOf, filter_plan, ← item_placed, placed_pack, List.nil_append, List.map_map]
  exact List.map_id _

theorem cut_runsOf_plan (p : Planner) (tags : List Tag) (block : UInt16) :
    Cut p.pduSize p.maxItems tags block (runsOf block (p.plan tags)) where
  ordered := by
    rw [flatten_runsOf_plan]
    exact sortByOffset_pairwise (itemsIn_entries_pairwise_index block tags)
  mem_iff item := by
    rw [flatten_runsOf_plan, mem_sortByOffset, mem_itemsIn]
  fits := by
    intro run hrun
    rcases List.mem_map.1 hrun with ⟨r, hr, rfl⟩
    exact (within_of_mem_plan (List.mem_of_mem_filter hr)).fits

/-- No cut of a data block's items has fewer runs than the plan has requests. -/
theorem length_runsOf_plan_le {p : Planner} {tags : List Tag} {block : UInt16}
    {runs : List (List Item)} (h : Cut p.pduSize p.maxItems tags block runs) :
    (runsOf block (p.plan tags)).length ≤ runs.length := by
  have hplan := cut_runsOf_plan p tags block
  have hitems : runs.flatten = [] ++ [] ++ sortByOffset (itemsIn block (entries tags)) := by
    rw [List.append_nil, List.nil_append, ← flatten_runsOf_plan p]
    apply eq_of_ordered h.ordered hplan.ordered
    intro item
    rw [h.mem_iff, hplan.mem_iff]
  rw [runsOf, List.length_map, filter_plan]
  exact length_pack_le (filling_nil p) h.fits hitems

theorem isLeast_runsOf_plan (p : Planner) (tags : List Tag) (block : UInt16) :
    IsLeast {k | ∃ runs, Cut p.pduSize p.maxItems tags block runs ∧ runs.length = k}
      ((p.plan tags).countP (·.block = block)) := by
  have hcount : (p.plan tags).countP (·.block = block) =
      (runsOf block (p.plan tags)).length := by
    rw [runsOf, List.length_map, List.countP_eq_length_filter]
  rw [hcount]
  refine ⟨⟨_, cut_runsOf_plan p tags block, rfl⟩, ?_⟩
  rintro k ⟨runs, hcut, rfl⟩
  exact length_runsOf_plan_le hcut

/-- A plan has as few requests for each data block as there can be: of all cuts
of its items, in their order, into runs that fit the limits, none has fewer
runs. -/
theorem plan_fewest (pduSize : Nat) (tags : List Tag) (block : UInt16) :
    IsLeast {k | ∃ runs, Cut pduSize maxItemsPerRequest tags block runs ∧ runs.length = k}
      (((Planner.ofPduSize pduSize).plan tags).countP (·.block = block)) ∧
    ∀ n, IsLeast {k | ∃ runs, Cut pduSize (max 1 n) tags block runs ∧ runs.length = k}
      ((((Planner.ofPduSize pduSize).withMaxItems n).plan tags).countP (·.block = block)) := by
  constructor
  · exact isLeast_runsOf_plan (Planner.ofPduSize pduSize) tags block
  · intro n
    rw [Nat.max_comm]
    exact isLeast_runsOf_plan ((Planner.ofPduSize pduSize).withMaxItems n) tags block

end DataBlock.Plan
