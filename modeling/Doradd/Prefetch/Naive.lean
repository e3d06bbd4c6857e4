import Mathlib.Data.Int.Order.Basic
import Doradd.Lib.Bisect
import Doradd.Lib.Checked

/-!
# Naive binary search

The search that the interleaved ones are compared with.  An iterator is the position of
what it points to.

* `naiveBinarySearch_eq`: in a sorted vector, it finds exactly what occurs there;
* `countP_naive`: how often it finds something.
-/

namespace Doradd.Prefetch

open Lib

/-! ## prefetch/coro_bin_search/naive.h -/

/-- The loop of `naive_binary_search`. -/
def naiveLoop (v : List Int) (val : Int) (first len : Nat) : Except Fault Bool :=
  if 0 < len then do
    let half := len / 2
    let middle := first + half
    let middleKey ← readAt v middle
    let bounds := if middleKey < val then (middle + 1, len - half - 1) else (first, half)
    if middleKey = val then pure true else naiveLoop v val bounds.1 bounds.2
  else
    pure false
termination_by len
decreasing_by
  split
  · show len - len / 2 - 1 < len
    omega
  · show len / 2 < len
    omega

def naiveBinarySearch (v : List Int) (val : Int) : Except Fault Bool := naiveLoop v val 0 v.length

/-! ## Answers -/

variable {v : List Int}

/-- One round of the loop. -/
theorem naiveLoop_step {val x : Int} {w : Window} (hlen : 0 < w.len)
    (hx : v[w.middle]? = some x) : naiveLoop v val w.first w.len =
      if x = val then .ok true
      else naiveLoop v val (w.narrow x val).first (w.narrow x val).len := by
  rw [naiveLoop, if_pos hlen]
  refine (bind_of_ok (readAt_eq_ok.mpr hx) _).trans ?_
  exact congrArg (fun b => if x = val then .ok true else naiveLoop v val b.1 b.2)
    (w.narrow_pair x val)

theorem naiveLoop_eq (hs : v.Pairwise (· ≤ ·)) {val : Int} {w : Window}
    (h : w.Covers v val) : naiveLoop v val w.first w.len = .ok (decide (val ∈ v)) := by
  induction hn : w.len using Nat.strongRecOn generalizing w with
  | ind n ih =>
    subst hn
    rcases Nat.eq_zero_or_pos w.len with hlen | hlen
    · rw [naiveLoop, if_neg (by omega), decide_eq_false (h.notMem hlen)]
      rfl
    · obtain ⟨x, hx⟩ := h.exists_middle hlen
      rw [naiveLoop_step hlen hx]
      by_cases heq : x = val
      · rw [if_pos heq, decide_eq_true (heq ▸ List.mem_of_getElem? hx)]
      · rw [if_neg heq]
        exact ih _ (Window.narrow_len_lt hlen x val) (h.narrow hs hlen hx heq) rfl

theorem naiveBinarySearch_eq (hs : v.Pairwise (· ≤ ·)) (val : Int) :
    naiveBinarySearch v val = .ok (decide (val ∈ v)) :=
  naiveLoop_eq hs (Window.covers_whole v val)

theorem countP_naive (hs : v.Pairwise (· ≤ ·)) (lookups : List Int) :
    lookups.countP (fun key => naiveBinarySearch v key = .ok true) =
      lookups.countP fun key => key ∈ v := by
  apply List.countP_congr
  intro key _
  simp only [naiveBinarySearch_eq hs, Except.ok.injEq, decide_eq_true_eq]

end Doradd.Prefetch
