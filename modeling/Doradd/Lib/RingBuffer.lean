import Mathlib.Data.Nat.ModEq

/-!
# Ring buffers without a full flag

Two positions go round the slots: what is pushed goes into the slot at `head`, what is
popped comes from the slot at `tail`.  Neither is checked.  When the two meet, the buffer
may be empty or full.

* `Gap.push`, `Gap.pop`: how far apart the positions are, whatever is in the slots;
* `Holds.push`, `Holds.front`, `Holds.pop`: a buffer that holds a queue.
-/

namespace Lib

structure RingBuffer (α : Type) where
  head : Nat
  tail : Nat
  arr : List α

namespace RingBuffer

variable {α : Type}

def push (n : Nat) (b : RingBuffer α) (a : α) : RingBuffer α :=
  ⟨(b.head + 1) % n, b.tail, b.arr.set b.head a⟩

def pop (n : Nat) (b : RingBuffer α) : RingBuffer α := ⟨b.head, (b.tail + 1) % n, b.arr⟩

/-- Of `n` slots, `head` is `d` in front of `tail`. -/
structure Gap (n : Nat) (b : RingBuffer α) (d : Nat) : Prop where
  size_eq : b.arr.length = n
  tail_lt : b.tail < n
  head_eq : b.head = (b.tail + d) % n

/-- The slots from `tail` on are those of the queue. -/
structure Holds (n : Nat) (b : RingBuffer α) (q : List α) : Prop extends Gap n b q.length where
  slots : ∀ k a, q[k]? = some a → b.arr[(b.tail + k) % n]? = some a

variable {n d : Nat} {b : RingBuffer α} {q : List α} {a : α}

/-! ## Positions -/

theorem Gap.head_lt (h : Gap n b d) : b.head < n := by
  rw [h.head_eq]
  exact Nat.mod_lt _ (Nat.zero_lt_of_lt h.tail_lt)

theorem Gap.push (h : Gap n b d) (a : α) : Gap n (b.push n a) (d + 1) := by
  refine ⟨?_, h.tail_lt, ?_⟩
  · rw [RingBuffer.push, List.length_set, h.size_eq]
  · show (b.head + 1) % n = (b.tail + (d + 1)) % n
    rw [h.head_eq, Nat.mod_add_mod, Nat.add_assoc]

theorem Gap.pop (h : Gap n b (d + 1)) : Gap n (b.pop n) d := by
  refine ⟨h.size_eq, Nat.mod_lt _ (Nat.zero_lt_of_lt h.tail_lt), ?_⟩
  show b.head = ((b.tail + 1) % n + d) % n
  rw [h.head_eq, Nat.mod_add_mod]
  congr 1
  omega

/-- The positions meet whenever a whole number of rounds lies between them. -/
theorem Gap.meet_iff (h : Gap n b d) : b.head = b.tail ↔ d % n = 0 := by
  have htail : (b.tail + 0) % n = b.tail := Nat.mod_eq_of_lt h.tail_lt
  rw [h.head_eq]
  constructor
  · intro hmeet
    have hmod : b.tail + d ≡ b.tail + 0 [MOD n] := hmeet.trans htail.symm
    have hd : d % n = 0 % n := Nat.ModEq.add_left_cancel' _ hmod
    rw [hd, Nat.zero_mod]
  · intro hd
    rw [Nat.add_mod, hd, Nat.add_zero, Nat.mod_mod]
    exact htail

/-! ## Queues -/

theorem Gap.holds_nil (h : Gap n b 0) : Holds n b [] :=
  ⟨h, fun k a hk => by cases hk⟩

theorem Holds.front (h : Holds n b (a :: q)) : b.arr[b.tail]? = some a := by
  have hslot := h.slots 0 a rfl
  rw [Nat.add_zero, Nat.mod_eq_of_lt h.tail_lt] at hslot
  exact hslot

theorem Holds.pop (h : Holds n b (a :: q)) : Holds n (b.pop n) q := by
  refine ⟨h.toGap.pop, fun k c hk => ?_⟩
  have hslot := h.slots (k + 1) c hk
  show b.arr[((b.tail + 1) % n + k) % n]? = some c
  rw [Nat.mod_add_mod, Nat.add_assoc, Nat.add_comm 1 k]
  exact hslot

/-- As long as there is a slot left, nothing is overwritten. -/
theorem Holds.push (h : Holds n b q) (hfits : q.length < n) (a : α) :
    Holds n (b.push n a) (q ++ [a]) := by
  have hgap := h.toGap.push a
  refine ⟨by rw [List.length_append]; exact hgap, fun k c hk => ?_⟩
  show (b.arr.set b.head a)[(b.tail + k) % n]? = some c
  have hlt := h.head_lt
  rcases Nat.lt_or_ge k q.length with hk' | hk'
  · rw [List.getElem?_append_left hk'] at hk
    have hne : b.head ≠ (b.tail + k) % n := by
      rw [h.head_eq]
      intro heq
      have hmod : q.length % n = k % n := Nat.ModEq.add_left_cancel' _ heq
      rw [Nat.mod_eq_of_lt hfits, Nat.mod_eq_of_lt (by omega)] at hmod
      omega
    rw [List.getElem?_set_ne hne]
    exact h.slots k c hk
  · rw [List.getElem?_append_right hk'] at hk
    rw [List.getElem?_singleton] at hk
    split at hk
    · cases hk
      have hlast : (b.tail + k) % n = b.head := by
        rw [h.head_eq, show k = q.length by omega]
      rw [hlast, List.getElem?_set_self (by rw [h.size_eq]; exact hlt)]
    · cases hk

end RingBuffer

end Lib
