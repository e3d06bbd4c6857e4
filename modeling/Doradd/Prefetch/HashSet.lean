import Mathlib.Data.Finset.Card
import Doradd.Lib.SetOps
import Doradd.Prefetch.HashMap

/-!
# The hash map is a set

Values are inserted and removed one at a time; an entry is a vector that keeps no order.

* `Stands.step`: what the entries hold stands for a set, and every request is answered as
  the set would;
* `hash_map_is_set`: so is every sequence of requests, and the lookups of many values after
  it.
-/

namespace Doradd.Prefetch

open Lib

variable {T : Type} [DecidableEq T]

/-! ## prefetch/hashmap/hashmap.hpp -/

namespace SimpleHashMapEntry

def insert (entry : SimpleHashMapEntry T) (value : T) : Bool × SimpleHashMapEntry T :=
  if HashMapEntry.find entry value then (false, entry)
  else (true, ⟨entry.mValues ++ [value]⟩)

/-- `std::find` comes to the end of the vector if the value is not there. -/
def remove (entry : SimpleHashMapEntry T) (value : T) : Bool × SimpleHashMapEntry T :=
  let it := entry.mValues.idxOf value
  if it ≠ entry.mValues.length then
    (true, ⟨(iterSwap entry.mValues it (entry.mValues.length - 1)).dropLast⟩)
  else (false, entry)

end SimpleHashMapEntry

namespace FastHashMap

/-- `fast_hash_map(size)` -/
def new (hash : T → UInt64) (size : Nat) (h : 0 < size) :
    FastHashMap T (SimpleHashMapEntry T) where
  mValues := List.replicate size ⟨[]⟩
  mSize := size
  mHash := hash
  size_eq := List.length_replicate
  size_pos := h

section

variable (m : FastHashMap T (SimpleHashMapEntry T))

/-- The map with another vector in one entry. -/
def setEntry (i : Nat) (entry : SimpleHashMapEntry T) : FastHashMap T (SimpleHashMapEntry T) where
  mValues := m.mValues.set i entry
  mSize := m.mSize
  mHash := m.mHash
  size_eq := (List.length_set ..).trans m.size_eq
  size_pos := m.size_pos

def insert (value : T) : Except Fault (Bool × FastHashMap T (SimpleHashMapEntry T)) := do
  let entry := m.getEntry value
  let (b, bucket) := (← readAt m.mValues entry).insert value
  pure (b, m.setEntry entry bucket)

def remove (value : T) : Except Fault (Bool × FastHashMap T (SimpleHashMapEntry T)) := do
  let entry := m.getEntry value
  let (b, bucket) := (← readAt m.mValues entry).remove value
  pure (b, m.setEntry entry bucket)

/-- A call of one of the three. -/
def request : SetOp T → Except Fault (Bool × FastHashMap T (SimpleHashMapEntry T))
  | .insert v => m.insert v
  | .remove v => m.remove v
  | .find v => do
    let b ← m.find v
    pure (b, m)

end

/-! ## Entries -/

theorem find_entry (entry : SimpleHashMapEntry T) (v : T) :
    HashMapEntry.find entry v = decide (v ∈ entry.mValues) := by
  show entry.mValues.any (fun u => u == v) = _
  rw [Bool.eq_iff_iff, List.any_eq_true, decide_eq_true_eq]
  constructor
  · rintro ⟨u, hu, he⟩
    exact (eq_of_beq he) ▸ hu
  · intro hv
    exact ⟨v, hv, beq_self_eq_true v⟩

/-- A value that is removed was there once. -/
theorem remove_perm {entry : SimpleHashMapEntry T} {v : T} (h : v ∈ entry.mValues) :
    (entry.remove v).1 = true ∧ (entry.remove v).2.mValues.Perm (entry.mValues.erase v) := by
  have hlt := List.idxOf_lt_length_iff.mpr h
  rw [SimpleHashMapEntry.remove, if_pos (Nat.ne_of_lt hlt)]
  refine ⟨rfl, ?_⟩
  rw [← List.eraseIdx_idxOf_eq_erase]
  exact swapRemove_perm _ hlt

theorem remove_of_notMem {entry : SimpleHashMapEntry T} {v : T} (h : v ∉ entry.mValues) :
    entry.remove v = (false, entry) := by
  rw [SimpleHashMapEntry.remove, if_neg (not_not.mpr (List.idxOf_eq_length_iff.mpr h))]

/-! ## Sets -/

/-- The entries stand for a set: every vector has the values of the set that belong into
it, once each. -/
structure Stands (m : FastHashMap T (SimpleHashMapEntry T)) (S : Finset T) : Prop where
  nodup : ∀ (i : Nat) (entry : SimpleHashMapEntry T), m.mValues[i]? = some entry →
    entry.mValues.Nodup
  mem : ∀ (i : Nat) (entry : SimpleHashMapEntry T) (v : T), m.mValues[i]? = some entry →
    (v ∈ entry.mValues ↔ v ∈ S ∧ m.getEntry v = i)

omit [DecidableEq T] in
theorem stands_new (hash : T → UInt64) (size : Nat) (h : 0 < size) :
    Stands (new hash size h) ∅ := by
  have hempty : ∀ (i : Nat) (entry : SimpleHashMapEntry T),
      (new hash size h).mValues[i]? = some entry → entry.mValues = [] := by
    intro i entry he
    rw [List.eq_of_mem_replicate (List.mem_of_getElem? he)]
  constructor
  · intro i entry he
    rw [hempty i entry he]
    exact List.nodup_nil
  · intro i entry v he
    rw [hempty i entry he]
    exact iff_of_false List.not_mem_nil fun hv => Finset.notMem_empty v hv.1

section

variable {m : FastHashMap T (SimpleHashMapEntry T)} {S S' : Finset T}

omit [DecidableEq T] in
/-- The entry of a value. -/
theorem exists_entry (m : FastHashMap T (SimpleHashMapEntry T)) (v : T) :
    ∃ entry, m.mValues[m.getEntry v]? = some entry :=
  ⟨_, List.getElem?_eq_getElem (m.getEntry_lt v)⟩

omit [DecidableEq T] in
/-- One entry is replaced, for a set that differs in the values of this entry at most. -/
theorem Stands.setEntry (h : m.Stands S) {i : Nat} {entry : SimpleHashMapEntry T}
    (hnodup : entry.mValues.Nodup)
    (hmem : ∀ v, v ∈ entry.mValues ↔ v ∈ S' ∧ m.getEntry v = i)
    (hother : ∀ v, m.getEntry v ≠ i → (v ∈ S' ↔ v ∈ S)) : (m.setEntry i entry).Stands S' := by
  constructor
  · intro j e he
    simp only [FastHashMap.setEntry, List.getElem?_set] at he
    split at he
    · split at he
      · rw [← Option.some.inj he]
        exact hnodup
      · cases he
    · exact h.nodup j e he
  · intro j e v he
    simp only [FastHashMap.setEntry, List.getElem?_set] at he
    split at he
    · rename_i hij
      split at he
      · rw [← Option.some.inj he, ← hij]
        exact hmem v
      · cases he
    · rename_i hij
      rw [h.mem j e v he]
      refine and_congr_left fun hv => (hother v fun hi => hij ?_).symm
      rw [← hi, ← hv]

theorem Stands.find (h : m.Stands S) (v : T) : m.find v = .ok (decide (v ∈ S)) := by
  obtain ⟨entry, he⟩ := m.exists_entry v
  rw [FastHashMap.find, findIn_eq, answer, he]
  simp only [find_entry, h.mem _ _ v he, and_true]

theorem Stands.insert (h : m.Stands S) (v : T) :
    ∃ m', m.insert v = .ok (decide (v ∉ S), m') ∧ m'.Stands (Insert.insert v S) := by
  obtain ⟨entry, he⟩ := m.exists_entry v
  have hv := h.mem _ _ v he
  rw [and_iff_left rfl] at hv
  rw [FastHashMap.insert, bind_of_ok (readAt_eq_ok.mpr he), SimpleHashMapEntry.insert,
    find_entry]
  by_cases hS : v ∈ S
  · rw [if_pos (decide_eq_true (hv.mpr hS))]
    refine ⟨_, by simp only [hS, not_true, decide_false]; rfl, ?_⟩
    rw [Finset.insert_eq_of_mem hS]
    exact h.setEntry (h.nodup _ _ he) (fun u => h.mem _ _ u he) fun _ _ => Iff.rfl
  · have hnot := fun hm => hS (hv.mp hm)
    rw [if_neg (by rw [decide_eq_true_eq]; exact hnot)]
    refine ⟨_, by simp only [hS, not_false_eq_true, decide_true]; rfl, ?_⟩
    refine h.setEntry ?_ (fun u => ?_) fun u hu => ?_
    · rw [List.nodup_append]
      refine ⟨h.nodup _ _ he, List.nodup_singleton v, fun a ha b hb hab => ?_⟩
      rw [List.mem_singleton.mp hb] at hab
      exact hnot (hab ▸ ha)
    · rw [List.mem_append, List.mem_singleton, h.mem _ _ u he, Finset.mem_insert]
      constructor
      · rintro (⟨hu, hi⟩ | rfl)
        · exact ⟨Or.inr hu, hi⟩
        · exact ⟨Or.inl rfl, rfl⟩
      · rintro ⟨rfl | hu, hi⟩
        · exact Or.inr rfl
        · exact Or.inl ⟨hu, hi⟩
    · rw [Finset.mem_insert, or_iff_right]
      rintro rfl
      exact hu rfl

theorem Stands.remove (h : m.Stands S) (v : T) :
    ∃ m', m.remove v = .ok (decide (v ∈ S), m') ∧ m'.Stands (S.erase v) := by
  obtain ⟨entry, he⟩ := m.exists_entry v
  have hv := h.mem _ _ v he
  rw [and_iff_left rfl] at hv
  rw [FastHashMap.remove, bind_of_ok (readAt_eq_ok.mpr he)]
  by_cases hS : v ∈ S
  · obtain ⟨htrue, hperm⟩ := remove_perm (hv.mpr hS)
    have hnodup := h.nodup _ _ he
    refine ⟨_, by simp only [hS, decide_true, htrue]; rfl, ?_⟩
    refine h.setEntry (hperm.nodup_iff.mpr (hnodup.erase v)) (fun u => ?_) fun u hu => ?_
    · rw [hperm.mem_iff, hnodup.mem_erase_iff, h.mem _ _ u he, Finset.mem_erase, and_assoc]
    · rw [Finset.mem_erase, and_iff_right]
      rintro rfl
      exact hu rfl
  · rw [remove_of_notMem fun hm => hS (hv.mp hm)]
    refine ⟨_, by simp only [hS, decide_false]; rfl, ?_⟩
    rw [Finset.erase_eq_of_notMem hS]
    exact h.setEntry (h.nodup _ _ he) (fun u => h.mem _ _ u he) fun _ _ => Iff.rfl

/-- **Step.** -/
theorem Stands.step (h : m.Stands S) (a : SetOp T) :
    ∃ m', m.request a = .ok ((a.apply S).1, m') ∧ m'.Stands (a.apply S).2 := by
  cases a with
  | insert v => exact h.insert v
  | remove v => exact h.remove v
  | find v =>
    refine ⟨m, ?_, h⟩
    rw [request, bind_of_ok (h.find v)]
    rfl

theorem Stands.answer (h : m.Stands S) (v : T) : m.answer v = decide (v ∈ S) := by
  have hfind := h.find v
  rw [FastHashMap.find, findIn_eq] at hfind
  exact Except.ok.inj hfind

/-- What the lookups of many values come to. -/
theorem Stands.progress (h : m.Stands S) (values : Values T) :
    (m.progress values values.size).result = values.toList.map fun v => decide (v ∈ S) := by
  rw [FastHashMap.progress, List.mapIdx_eq_iff]
  intro i
  rw [List.getElem?_map]
  cases hv : values.toList[i]? with
  | none => rfl
  | some v =>
    have hi : i < values.size := (List.getElem?_eq_some_iff.mp hv).1
    rw [Option.map_some, Option.map_some, if_pos hi, h.answer]

/-- The vectors together have every value of the set, once. -/
theorem Stands.sum_sizes (h : m.Stands S) :
    (m.mValues.map fun entry => entry.mValues.length).sum = S.card := by
  have hnodup : (m.mValues.flatMap fun entry => entry.mValues).Nodup := by
    rw [List.nodup_flatMap, List.pairwise_iff_getElem]
    constructor
    · intro entry he
      obtain ⟨i, hi⟩ := List.getElem?_of_mem he
      exact h.nodup i entry hi
    · intro i j hi hj hij v hvi hvj
      have hi' := (h.mem i _ v (List.getElem?_eq_getElem hi)).mp hvi
      have hj' := (h.mem j _ v (List.getElem?_eq_getElem hj)).mp hvj
      exact Nat.ne_of_lt hij (hi'.2.symm.trans hj'.2)
  have hmem : (m.mValues.flatMap fun entry => entry.mValues).toFinset = S := by
    ext v
    rw [List.mem_toFinset, List.mem_flatMap]
    constructor
    · rintro ⟨entry, he, hv⟩
      obtain ⟨i, hi⟩ := List.getElem?_of_mem he
      exact ((h.mem i entry v hi).mp hv).1
    · intro hv
      obtain ⟨entry, he⟩ := m.exists_entry v
      exact ⟨entry, List.mem_of_getElem? he, (h.mem _ entry v he).mpr ⟨hv, rfl⟩⟩
  rw [← List.length_flatMap, ← List.toFinset_card_of_nodup hnodup, hmem]

end

/-- **The map is a set.** -/
theorem hash_map_is_set (hash : T → UInt64) (size : Nat) (h : 0 < size)
    (requests : List (SetOp T)) :
    let S := (answers SetOp.apply ∅ requests).2
    ∃ m, answersM request (new hash size h) requests =
        .ok ((answers SetOp.apply ∅ requests).1, m) ∧
      (m.mValues.map fun entry => entry.mValues.length).sum = S.card ∧
      ∀ (values : Values T) (lookAhead : Nat), 1 ≤ lookAhead →
        (∃ r, m.findMultipleBatch lookAhead values = .ok r ∧
          r.result = values.toList.map fun v => decide (v ∈ S)) ∧
        (lookAhead ≤ values.size → ∃ r, m.findMultipleInterleave lookAhead values = .ok r ∧
          r.result = values.toList.map fun v => decide (v ∈ S)) := by
  intro S
  obtain ⟨m, hrun, hstands⟩ := answersM_refine (fun _ _ a hs => Stands.step hs a)
    (stands_new hash size h) requests
  refine ⟨m, hrun, hstands.sum_sizes, fun values lookAhead hpos => ⟨?_, fun hle => ?_⟩⟩
  · exact ⟨_, findMultipleBatch_eq hpos, hstands.progress values⟩
  · exact ⟨_, findMultipleInterleave_eq hpos hle, hstands.progress values⟩

end FastHashMap

/-- Three buckets; a value is removed that the last one of its bucket replaces. -/
theorem hash_map_is_set_three : ∃ m,
    answersM FastHashMap.request (FastHashMap.new UInt64.ofNat 3 (by decide))
      [.insert 4, .insert 1, .insert 7, .insert 4, .remove 4, .find 7, .find 4] =
        .ok ([true, true, true, false, true, true, false], m) ∧
      (m.mValues.map fun entry => entry.mValues.length).sum = 2 := by
  obtain ⟨m, hrun, hsum, -⟩ := FastHashMap.hash_map_is_set UInt64.ofNat 3 (by decide)
    [.insert 4, .insert 1, .insert 7, .insert 4, .remove 4, .find 7, .find 4]
  exact ⟨m, hrun, hsum⟩

end Doradd.Prefetch
