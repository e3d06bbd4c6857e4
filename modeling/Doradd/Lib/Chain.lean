import Mathlib.Tactic.Common

/-!
# Chains of stages

Stages `0`, `1`, .., `n` hand items on to the next.  A stage that is not done and cannot
move is blocked: it waits for room in front of it or for an item behind it.

* `Chain.no_room_wait`: if nobody can move, nobody waits for room;
* `Chain.progress`: if somebody is not done, somebody can move.
-/

namespace Lib

/-- Who waits for what in a chain whose stages are `0`, .., `n`. -/
structure Chain (n : Nat) where
  done : Nat → Prop
  canMove : Nat → Prop
  waitsForRoom : Nat → Prop
  waitsForItem : Nat → Prop
  blocked : ∀ k ≤ n, ¬ done k → ¬ canMove k → waitsForRoom k ∨ waitsForItem k
  first : ¬ waitsForItem 0
  last : ¬ waitsForRoom n
  room : ∀ k < n, waitsForRoom k → ¬ done (k + 1) ∧ ¬ waitsForItem (k + 1)
  item : ∀ k < n, waitsForItem (k + 1) → ¬ done k

namespace Chain

variable {n : Nat} (c : Chain n)

/-- The stage in front of one that waits for room waits for room itself, and so on. -/
theorem no_room_wait (h : ∀ k ≤ n, ¬ c.canMove k) (d : Nat) :
    ∀ k, k + d = n → ¬ c.waitsForRoom k := by
  induction d with
  | zero =>
    rintro k rfl
    exact c.last
  | succ d ih =>
    intro k hk hwait
    obtain ⟨hdone, hitem⟩ := c.room k (by omega) hwait
    rcases c.blocked (k + 1) (by omega) hdone (h (k + 1) (by omega)) with hroom | hitem'
    · exact ih (k + 1) (by omega) hroom
    · exact hitem hitem'

/-- The stage behind one that waits for an item waits for one itself, and so on. -/
theorem all_done (h : ∀ k ≤ n, ¬ c.canMove k) (k : Nat) (hk : k ≤ n) : c.done k := by
  by_contra hdone
  induction k with
  | zero =>
    rcases c.blocked 0 hk hdone (h 0 hk) with hroom | hitem
    · exact c.no_room_wait h n 0 (Nat.zero_add n) hroom
    · exact c.first hitem
  | succ k ih =>
    rcases c.blocked (k + 1) hk hdone (h (k + 1) hk) with hroom | hitem
    · exact c.no_room_wait h (n - (k + 1)) (k + 1) (by omega) hroom
    · exact ih (by omega) (c.item k hk hitem)

/-- **Progress.** -/
theorem progress {k : Nat} (hk : k ≤ n) (hdone : ¬ c.done k) : ∃ j ≤ n, c.canMove j := by
  by_contra hnone
  have hstuck : ∀ j ≤ n, ¬ c.canMove j := fun j hj hmove => hnone ⟨j, hj, hmove⟩
  exact hdone (c.all_done hstuck k hk)

end Chain

end Lib
