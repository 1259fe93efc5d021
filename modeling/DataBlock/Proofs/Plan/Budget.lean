import DataBlock.Plan
import Mathlib.Data.List.Permutation
/-!
# Requests keep within the limits

A planner counts the bytes of the request being filled while it goes along.
What it counts are the bytes of the items taken so far, so that a request is
closed before an item would take it past the size or the number of items.  Only
an item that starts a request is never asked for its size.
-/

namespace DataBlock.Plan

def Item.size (item : Item) : Nat :=
  itemHeader + item.span.length.toNat

/-- The limits as they bind a request: one item is always allowed. -/
structure Request.Within (r : Request) (pduSize maxItems : Nat) : Prop where
  ne_nil : r.items ≠ []
  length_le : r.items.length ≤ maxItems
  pduSize_le : r.items.length ≠ 1 → r.pduSize ≤ pduSize
  alone : ∀ item ∈ r.items, pduSize < requestHeader + item.size → r.items = [item]

theorem Request.pduSize_eq (r : Request) :
    r.pduSize = requestHeader + (r.items.map Item.size).sum := by
  rcases r with ⟨block, items⟩
  simp only [pduSize, payload]
  induction items with
  | nil => rfl
  | cons item items ih =>
      simp only [List.length_cons, List.map_cons, List.sum_cons, Nat.mul_succ, Item.size] at ih ⊢
      omega

theorem size_le_pduSize {r : Request} {item : Item} (h : item ∈ r.items) :
    requestHeader + item.size ≤ r.pduSize := by
  rcases List.append_of_mem h with ⟨before, after, hitems⟩
  rw [r.pduSize_eq, hitems]
  simp only [List.map_append, List.map_cons, List.sum_append, List.sum_cons]
  omega

/-! ## The request being filled -/

/-- What holds between items of the request being filled and the bytes counted. -/
structure Filling (p : Planner) (current : List Item) (size : Nat) : Prop where
  size_eq : size = (current.map Item.size).sum
  length_le : current.length ≤ p.maxItems
  size_le : 2 ≤ current.length → requestHeader + size ≤ p.pduSize

theorem filling_nil (p : Planner) : Filling p [] 0 where
  size_eq := rfl
  length_le := Nat.zero_le _
  size_le := by simp

theorem filling_singleton (p : Planner) (item : Item) : Filling p [item] item.size where
  size_eq := by simp
  length_le := p.maxItems_pos
  size_le := by simp

namespace Filling

variable {p : Planner} {current : List Item} {size : Nat}

theorem concat (h : Filling p current size) {item : Item}
    (hroom : ¬ (p.maxItems ≤ current.length ∨
      current ≠ [] ∧ p.pduSize < size + item.size + requestHeader)) :
    Filling p (current ++ [item]) (size + item.size) := by
  rw [not_or, not_and, Nat.not_le, Nat.not_lt] at hroom
  rcases hroom with ⟨hlength, hsize⟩
  refine ⟨?_, ?_, ?_⟩
  · simp [h.size_eq]
  · rw [List.length_append, List.length_singleton]
    exact hlength
  · intro htwo
    rw [List.length_append, List.length_singleton] at htwo
    have hne : current ≠ [] := List.ne_nil_of_length_pos (by omega)
    have hfits := hsize hne
    omega

theorem within (h : Filling p current size) (hne : current ≠ []) (block : UInt16) :
    (⟨block, current⟩ : Request).Within p.pduSize p.maxItems := by
  have hbytes : (⟨block, current⟩ : Request).pduSize = requestHeader + size := by
    rw [Request.pduSize_eq, h.size_eq]
  have hpos : 0 < current.length := List.length_pos_iff.2 hne
  refine ⟨hne, h.length_le, ?_, ?_⟩
  · intro hlength
    have htwo : 2 ≤ current.length := by
      change current.length ≠ 1 at hlength
      omega
    rw [hbytes]
    exact h.size_le htwo
  · intro item hitem hlarge
    have hitemSize := size_le_pduSize hitem
    have hone : current.length = 1 := by
      by_contra hlength
      have hle := h.size_le (by omega)
      omega
    rcases List.length_eq_one_iff.1 hone with ⟨other, hother⟩
    subst hother
    rw [List.mem_singleton.1 hitem]

end Filling

/-! ## All requests -/

theorem within_of_mem_pack {p : Planner} {block : UInt16} {current : List Item} {size : Nat}
    {items : List Item} (h : Filling p current size) {r : Request}
    (hr : r ∈ p.pack block current size items) : r.Within p.pduSize p.maxItems := by
  induction items generalizing current size with
  | nil =>
      simp only [Planner.pack] at hr
      split at hr
      · simp at hr
      · next hne =>
        rw [List.mem_singleton.1 hr]
        exact h.within hne block
  | cons item items ih =>
      simp only [Planner.pack] at hr
      split at hr
      · next hfull =>
        -- there are items to close the request with, as a limit is never zero
        have hne : current ≠ [] := by
          rcases hfull with hlength | hsize
          · have hpos := p.maxItems_pos
            exact List.ne_nil_of_length_pos (by omega)
          · exact hsize.1
        rcases List.mem_cons.1 hr with heq | hmem
        · rw [heq]
          exact h.within hne block
        · exact ih (filling_singleton p item) hmem
      · next hroom => exact ih (h.concat hroom) hr

theorem within_of_mem_plan {p : Planner} {tags : List Tag} {r : Request} (hr : r ∈ p.plan tags) :
    r.Within p.pduSize p.maxItems := by
  rcases List.mem_flatMap.1 hr with ⟨⟨block, items⟩, _, hmem⟩
  exact within_of_mem_pack (filling_nil p) hmem

/-- Every request of a plan has an item, not more items than allowed, and not
more bytes than allowed unless the item is alone, as one is that takes more
bytes by itself. -/
theorem plan_within_limits (pduSize : Nat) (tags : List Tag) :
    (∀ r ∈ (Planner.ofPduSize pduSize).plan tags, r.Within pduSize maxItemsPerRequest) ∧
    ∀ n, ∀ r ∈ ((Planner.ofPduSize pduSize).withMaxItems n).plan tags,
      r.Within pduSize (max 1 n) := by
  constructor
  · intro r hr
    exact within_of_mem_plan hr
  · intro n r hr
    rw [Nat.max_comm]
    exact within_of_mem_plan hr

/-- A text too long for 42 bytes, and numbers of which two fill them exactly. -/
def textAndNumbers : List Tag :=
  [⟨⟨7, 100, 0, .string, some 254⟩, rfl⟩, ⟨⟨7, 0, 0, .int, none⟩, rfl⟩,
    ⟨⟨7, 2, 0, .uint, none⟩, rfl⟩, ⟨⟨7, 4, 0, .word, none⟩, rfl⟩]

theorem plan_textAndNumbers :
    ((Planner.ofPduSize 42).withMaxItems 3).plan textAndNumbers =
      [⟨7, [⟨1, ⟨0, 2⟩⟩, ⟨2, ⟨2, 2⟩⟩]⟩, ⟨7, [⟨3, ⟨4, 2⟩⟩]⟩, ⟨7, [⟨0, ⟨100, 256⟩⟩]⟩] ∧
    (⟨7, [⟨1, ⟨0, 2⟩⟩, ⟨2, ⟨2, 2⟩⟩]⟩ : Request).Within 42 3 ∧
    (⟨7, [⟨0, ⟨100, 256⟩⟩]⟩ : Request).Within 42 3 := by
  have hplan : ((Planner.ofPduSize 42).withMaxItems 3).plan textAndNumbers =
      [⟨7, [⟨1, ⟨0, 2⟩⟩, ⟨2, ⟨2, 2⟩⟩]⟩, ⟨7, [⟨3, ⟨4, 2⟩⟩]⟩, ⟨7, [⟨0, ⟨100, 256⟩⟩]⟩] := by
    cbv
  have hwithin := (plan_within_limits 42 textAndNumbers).2 3
  rw [hplan] at hwithin
  exact ⟨hplan, hwithin _ (by simp), hwithin _ (by simp)⟩

end DataBlock.Plan
