import Mathlib.Tactic.Common

/-!
# Bounded FIFO queues

The abstract meaning of a single-producer single-consumer ring: a list of at
most `cap` items.  `push` appends and is not enabled while the queue is full,
`front` shows the oldest item, `pop` removes it.

* `Relays`: the consumer may work on the front item for a while before it pops
  it; what was pushed is what was taken and then what waits behind the item held.
-/

namespace Lib

/-- A queue that never holds more than `cap` items. -/
structure Fifo (α : Type) (cap : Nat) where
  items : List α
  bounded : items.length ≤ cap

namespace Fifo

variable {α : Type} {cap : Nat}

def empty : Fifo α cap := ⟨[], Nat.zero_le cap⟩

/-- `none` while the queue is full: the producer waits. -/
def push (q : Fifo α cap) (a : α) : Option (Fifo α cap) :=
  if h : q.items.length < cap then
    some ⟨q.items ++ [a], by rw [List.length_append]; exact h⟩
  else none

def front (q : Fifo α cap) : Option α := q.items.head?

def pop (q : Fifo α cap) : Fifo α cap :=
  ⟨q.items.tail, by rw [List.length_tail]; exact Nat.le_trans (Nat.sub_le _ 1) q.bounded⟩

@[simp] theorem empty_items : (empty : Fifo α cap).items = [] := rfl

@[simp] theorem pop_items (q : Fifo α cap) : q.pop.items = q.items.tail := rfl

theorem push_items {q q' : Fifo α cap} {a : α} (h : q.push a = some q') :
    q'.items = q.items ++ [a] := by
  unfold push at h
  split at h
  · rw [Option.some.injEq] at h
    rw [← h]
  · cases h

/-- An item shown at the front heads the queue. -/
theorem items_of_front {q : Fifo α cap} {a : α} (h : q.front = some a) :
    q.items = a :: q.items.tail := by
  cases hq : q.items with
  | nil => simp [front, hq] at h
  | cons b bs =>
    simp only [front, hq, List.head?_cons, Option.some.injEq] at h
    rw [h, List.tail_cons]

/-! ## A consumer that pops late -/

/-- Of the items pushed, those popped are done, those in `held` are taken and
still at the front. -/
def Relays (q : Fifo α cap) (pushed taken held : List α) : Prop :=
  ∃ popped, pushed = popped ++ q.items ∧ taken = popped ++ held ∧ held <+: q.items

variable {q q' : Fifo α cap} {pushed taken held : List α} {a : α}

theorem relays_empty : (empty : Fifo α cap).Relays [] [] [] :=
  ⟨[], rfl, rfl, List.prefix_rfl⟩

theorem Relays.push (h : q.Relays pushed taken held) (hq : q.push a = some q') :
    q'.Relays (pushed ++ [a]) taken held := by
  obtain ⟨popped, hp, ht, hh⟩ := h
  refine ⟨popped, ?_, ht, ?_⟩
  · rw [push_items hq, hp, List.append_assoc]
  · rw [push_items hq]
    exact hh.trans (List.prefix_append _ _)

theorem Relays.take (h : q.Relays pushed taken []) (hf : q.front = some a) :
    q.Relays pushed (taken ++ [a]) [a] := by
  obtain ⟨popped, hp, ht, _⟩ := h
  refine ⟨popped, hp, ?_, ?_⟩
  · rw [ht, List.append_nil]
  · rw [items_of_front hf]
    exact ⟨_, rfl⟩

theorem Relays.pop (h : q.Relays pushed taken [a]) : q.pop.Relays pushed taken [] := by
  obtain ⟨popped, hp, ht, rest, hi⟩ := h
  refine ⟨popped ++ [a], ?_, ?_, List.nil_prefix⟩
  · rw [hp, pop_items, ← hi, List.append_assoc]
    rfl
  · rw [ht, List.append_nil]

/-- What one step may do to a queue and to what its consumer holds. -/
inductive Move (q : Fifo α cap) (held : List α) : Fifo α cap → List α → List α → List α → Prop
  | idle : Move q held q [] [] held
  | push {a : α} {q' : Fifo α cap} (h : q.push a = some q') : Move q held q' [a] [] held
  | take {a : α} (h : q.front = some a) (hheld : held = []) : Move q held q [] [a] [a]
  | pop {a : α} (hheld : held = [a]) : Move q held q.pop [] [] []

theorem Relays.move {ps ts held' : List α} (h : q.Relays pushed taken held)
    (hm : q.Move held q' ps ts held') : q'.Relays (pushed ++ ps) (taken ++ ts) held' := by
  cases hm with
  | idle =>
    rw [List.append_nil, List.append_nil]
    exact h
  | push hq =>
    rw [List.append_nil]
    exact h.push hq
  | take hf hheld =>
    subst hheld
    rw [List.append_nil]
    exact h.take hf
  | pop hheld =>
    subst hheld
    rw [List.append_nil, List.append_nil]
    exact h.pop

/-- What waits behind the item held goes from the producer to the consumer. -/
theorem Relays.move_behind {ps ts held' : List α} (h : q.Relays pushed taken held)
    (hm : q.Move held q' ps ts held') :
    q.items.drop held.length ++ ps = ts ++ q'.items.drop held'.length := by
  obtain ⟨_, _, _, hh⟩ := h
  cases hm with
  | idle =>
    rw [List.append_nil]
    rfl
  | push hq =>
    rw [push_items hq, List.drop_append_of_le_length hh.length_le]
    rfl
  | take hf hheld =>
    subst hheld
    rw [List.append_nil]
    exact (items_of_front hf).trans (congrArg (List.cons _) List.drop_one.symm)
  | pop hheld =>
    subst hheld
    rw [List.append_nil]
    exact List.drop_one

theorem Relays.isPrefix (h : q.Relays pushed taken held) : taken <+: pushed := by
  obtain ⟨popped, hp, ht, rest, hi⟩ := h
  exact ⟨rest, by rw [hp, ht, List.append_assoc, hi]⟩

end Fifo

end Lib
