import Mathlib.Order.Lattice

/-!
# Searches in sorted lists

A binary search looks at the middle of a window and goes on in one of its halves.  As
long as the value has not been met, all its occurrences are in the window.

* `Window.Covers.above`, `Window.Covers.below`: one step, from the order of the list;
* `Window.Covers.narrow`: the same for a step that looks at the middle;
* `Window.narrow_len_lt`: windows get smaller;
* `Window.Covers.notMem`: in an empty window there is nothing to find.
-/

namespace Lib

/-- The positions from `first` on that a search still looks at. -/
structure Window where
  first : Nat
  len : Nat

namespace Window

variable {α : Type}

def middle (w : Window) : Nat := w.first + w.len / 2

/-- The window lies in the list, and has all that is equal to `val`. -/
structure Covers (xs : List α) (val : α) (w : Window) : Prop where
  inside : w.first + w.len ≤ xs.length
  only : ∀ i, xs[i]? = some val → w.first ≤ i ∧ i < w.first + w.len

variable {xs : List α} {val x : α} {w : Window}

theorem covers_whole (xs : List α) (val : α) : Covers xs val ⟨0, xs.length⟩ := by
  refine ⟨Nat.le_of_eq (Nat.zero_add _), fun i hi => ⟨Nat.zero_le i, ?_⟩⟩
  rw [Nat.zero_add]
  exact (List.getElem?_eq_some_iff.mp hi).1

theorem Covers.middle_lt (h : Covers xs val w) (hlen : 0 < w.len) : w.middle < xs.length := by
  have hin := h.inside
  unfold middle
  omega

theorem Covers.exists_middle (h : Covers xs val w) (hlen : 0 < w.len) :
    ∃ x, xs[w.middle]? = some x := ⟨_, List.getElem?_eq_getElem (h.middle_lt hlen)⟩

theorem Covers.notMem (h : Covers xs val w) (hlen : w.len = 0) : val ∉ xs := by
  intro hmem
  obtain ⟨i, hi⟩ := List.mem_iff_getElem?.mp hmem
  obtain ⟨hle, hlt⟩ := h.only i hi
  omega

/-! ## Steps -/

variable [LinearOrder α]

/-- What is left after `x` has been met in the middle: what is behind it if `x` is too
small, and what is in front of it otherwise. -/
def narrow (w : Window) (x val : α) : Window :=
  if x < val then ⟨w.middle + 1, w.len - w.len / 2 - 1⟩ else ⟨w.first, w.len / 2⟩

/-- The same for a search that keeps the two numbers apart. -/
theorem narrow_pair (w : Window) (x val : α) :
    (if x < val then (w.middle + 1, w.len - w.len / 2 - 1) else (w.first, w.len / 2)) =
      ((w.narrow x val).first, (w.narrow x val).len) := by
  unfold narrow
  split <;> rfl

theorem narrow_len_lt {w : Window} (h : 0 < w.len) (x val : α) : (w.narrow x val).len < w.len := by
  unfold narrow
  split
  · show w.len - w.len / 2 - 1 < w.len
    omega
  · show w.len / 2 < w.len
    omega

/-- In a sorted list, what comes later is not smaller. -/
theorem le_of_sorted (hs : xs.Pairwise (· ≤ ·)) {i j : Nat} (hij : i ≤ j) {y z : α}
    (hi : xs[i]? = some y) (hj : xs[j]? = some z) : y ≤ z := by
  obtain ⟨hi', rfl⟩ := List.getElem?_eq_some_iff.mp hi
  obtain ⟨hj', rfl⟩ := List.getElem?_eq_some_iff.mp hj
  rcases Nat.lt_or_eq_of_le hij with hlt | rfl
  · exact List.pairwise_iff_getElem.mp hs i j hi' hj' hlt
  · exact le_refl _

/-- What is behind position `m`. -/
def above (w : Window) (m : Nat) : Window := ⟨m + 1, w.first + w.len - (m + 1)⟩

/-- What is in front of position `m`. -/
def below (w : Window) (m : Nat) : Window := ⟨w.first, m - w.first⟩

theorem Covers.above (h : Covers xs val w) (hs : xs.Pairwise (· ≤ ·)) {m : Nat}
    (hm : m < w.first + w.len) (hx : xs[m]? = some x) (hlt : x < val) :
    Covers xs val (w.above m) := by
  have hin := h.inside
  constructor
  · simp only [Window.above]
    omega
  · intro i hi
    obtain ⟨hle, hlt'⟩ := h.only i hi
    -- whatever is not behind `m` is smaller
    have hmid : m < i := by
      by_contra hle'
      exact absurd (le_of_sorted hs (Nat.not_lt.mp hle') hi hx) (not_le_of_gt hlt)
    simp only [Window.above]
    omega

theorem Covers.below (h : Covers xs val w) (hs : xs.Pairwise (· ≤ ·)) {m : Nat}
    (hm : w.first ≤ m) (hm' : m ≤ w.first + w.len) (hx : xs[m]? = some x) (hlt : val < x) :
    Covers xs val (w.below m) := by
  have hin := h.inside
  constructor
  · simp only [Window.below]
    omega
  · intro i hi
    obtain ⟨hle, hlt'⟩ := h.only i hi
    have hmid : i < m := by
      by_contra hle'
      exact absurd (le_of_sorted hs (Nat.not_lt.mp hle') hx hi) (not_le_of_gt hlt)
    simp only [Window.below]
    omega

/-- **One step** of a search that has not met the value. -/
theorem Covers.narrow (h : Covers xs val w) (hs : xs.Pairwise (· ≤ ·)) (hlen : 0 < w.len)
    (hx : xs[w.middle]? = some x) (hne : x ≠ val) : Covers xs val (w.narrow x val) := by
  unfold Window.narrow
  split
  · rename_i hlt
    have hlen' : w.len - w.len / 2 - 1 = w.first + w.len - (w.middle + 1) := by
      unfold middle
      omega
    rw [hlen']
    exact h.above hs (by unfold middle; omega) hx hlt
  · rename_i hge
    have hlen' : w.len / 2 = w.middle - w.first := by
      unfold middle
      omega
    rw [hlen']
    have hgt : val < x := lt_of_le_of_ne (not_lt.mp hge) (Ne.symm hne)
    exact h.below hs (by unfold middle; omega) (by unfold middle; omega) hx hgt

end Window

end Lib
