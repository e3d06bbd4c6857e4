import Doradd.Dispatcher.InPlace

/-!
# Pointers of chain records

* `contained_iff`: which counts keep `prepare_cowns` of a `Mixed` record within it.
-/

namespace Doradd.Chain.Mixed

open Lib

/-! ## chain/constants.hpp -/

def numCown : Nat := 38

/-- `Mixed::MarshalledSize` -/
def marshalledSize : Nat := 512

/-- `txm->num_writes` -/
def numWrites (mem : List UInt8) (p : Nat) : UInt8 := UInt8.ofNat (field mem (p + 0) 1)

/-- `txm->params[i]`, also past the end of the array. -/
def param (mem : List UInt8) (p i : Nat) : UInt32 := UInt32.ofNat (field mem (p + (5 + 4 * i)) 4)

/-! ## chain.cc -/

/-- The stores of `prepare_cowns`; `rowAddr` is `get_row_addr(key)->get_base_addr()` of the
table of resources. -/
def cownStores (rowAddr : UInt64 → UInt64) (mem : List UInt8) (p : Nat) : List PtrStore :=
  (List.range (numWrites mem p).toNat).map fun i =>
    ⟨i, fun mem => rowAddr (param mem p i - 1).toUInt64⟩

/-- `prepare_cowns` of the packed struct. -/
def preparer (rowAddr : UInt64 → UInt64) : Preparer where
  recordSize := marshalledSize
  ptrs := 157
  len := numCown
  ptrs_fit := by decide
  stores := cownStores rowAddr
  stores_congr := by
    intro mem mem' p h
    have hcount : numWrites mem' p = numWrites mem p := by
      rw [numWrites, numWrites, (h.mono (Set.Ico_subset_Ico (by omega) (by omega))).field]
    rw [cownStores, cownStores, hcount]

/-! ## Counts -/

/-- Where the stores of the loop go. -/
theorem cownStores_elems (rowAddr : UInt64 → UInt64) (mem : List UInt8) (p : Nat) :
    ((preparer rowAddr).stores mem p).map PtrStore.elem = List.range (numWrites mem p).toNat := by
  show ((List.range _).map _).map PtrStore.elem = _
  rw [List.map_map]
  exact List.map_id _

/-- **A call stays within the pointers of its record if there are at most 38 writes.** -/
theorem contained_iff (rowAddr : UInt64 → UInt64) {mem : List UInt8} {p : Nat} :
    (preparer rowAddr).Contained mem p ↔ (numWrites mem p).toNat ≤ numCown := by
  have helems : (∀ s ∈ (preparer rowAddr).stores mem p, s.elem < numCown) ↔
      ∀ j ∈ List.range (numWrites mem p).toNat, j < numCown := by
    rw [← cownStores_elems rowAddr mem p]
    exact (List.forall_mem_map (f := PtrStore.elem) (P := fun j => j < numCown)).symm
  refine Preparer.contained_iff.trans (helems.trans ?_)
  simp only [List.mem_range]
  constructor
  · intro h
    by_contra hn
    exact Nat.lt_irrefl numCown (h numCown (by omega))
  · intro h j hj
    omega

end Doradd.Chain.Mixed
