import Mathlib.Algebra.Ring.Nat
import Mathlib.Order.Interval.Set.Disjoint
import Mathlib.Order.CompletePartialOrder
import Mathlib.Algebra.Order.Group.Nat
import Mathlib.Algebra.Order.BigOperators.Group.List

/-!
# Blocks of slots laid out one after the other

* `offset_add_le`: the blocks follow each other inside their total size;
* `slot_subset`, `disjoint_slot`: the slots of a block lie inside it and apart.
-/

namespace Lib

/-! ## Blocks -/

/-- Where block `k` begins. -/
def offset (sizes : List Nat) (k : Nat) : Nat := (sizes.take k).sum

theorem offset_succ {sizes : List Nat} {k : Nat} (h : k < sizes.length) :
    offset sizes (k + 1) = offset sizes k + sizes[k] := List.sum_take_succ sizes k h

/-- A block ends before the later ones begin. -/
theorem offset_add_le {sizes : List Nat} {k l : Nat} (hk : k < sizes.length) (h : k < l) :
    offset sizes k + sizes[k] ≤ offset sizes l := by
  rw [← offset_succ hk]
  exact List.monotone_sum_take sizes h

/-- The last block ends with the total. -/
theorem offset_add_le_sum {sizes : List Nat} {k : Nat} (hk : k < sizes.length) :
    offset sizes k + sizes[k] ≤ sizes.sum :=
  (offset_add_le hk hk).trans_eq (congrArg List.sum List.take_length)

/-! ## Slots -/

/-- Slot `j` of a block of slots of one size. -/
def slot (start size j : Nat) : Set Nat := Set.Ico (start + size * j) (start + size * j + size)

theorem slot_subset (start size : Nat) {j n : Nat} (h : j < n) :
    slot start size j ⊆ Set.Ico start (start + size * n) := by
  have hle : size * (j + 1) ≤ size * n := Nat.mul_le_mul_left size h
  rw [Nat.mul_add, Nat.mul_one] at hle
  exact Set.Ico_subset_Ico (Nat.le_add_right _ _) (by omega)

theorem disjoint_slot (start size : Nat) {i j : Nat} (h : i ≠ j) :
    Disjoint (slot start size i) (slot start size j) := by
  have hstep : ∀ {i j : Nat}, i < j → Disjoint (slot start size i) (slot start size j) := by
    intro i j h
    have hle : size * (i + 1) ≤ size * j := Nat.mul_le_mul_left size h
    rw [Nat.mul_add, Nat.mul_one] at hle
    exact Set.Ico_disjoint_Ico.mpr (by omega)
  rcases Nat.lt_or_gt_of_ne h with h | h
  · exact hstep h
  · exact (hstep h).symm

/-- Different blocks are disjoint. -/
theorem disjoint_block (base : Nat) {sizes : List Nat} {k l : Nat} (hk : k < sizes.length)
    (hl : l < sizes.length) (h : k ≠ l) :
    Disjoint (Set.Ico (base + offset sizes k) (base + offset sizes k + sizes[k]))
      (Set.Ico (base + offset sizes l) (base + offset sizes l + sizes[l])) := by
  rcases Nat.lt_or_gt_of_ne h with h | h
  · have := offset_add_le hk h
    exact Set.Ico_disjoint_Ico.mpr (by omega)
  · have := offset_add_le hl h
    exact (Set.Ico_disjoint_Ico.mpr (by omega)).symm

end Lib
