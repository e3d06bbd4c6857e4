import Mathlib.Data.List.Nodup
import Doradd.Lib.Checked
import Doradd.Lib.Word

/-!
# Lookups in a hash map

A hash map looks many values up: one by one, with a ring of hashes that are computed
ahead, or in batches with a buffer of hashes.  All of them fill the vector of results
from the front.

* `findMultipleSimple_eq`: one by one;
* `interleave_agrees_iff`: the ring, which is filled before anything is looked up;
* `batch_agrees`: the buffer, with what is left of the values one by one.
-/

namespace Doradd.Prefetch

open Lib

/-! ## prefetch/hashmap/hashmap.hpp -/

/-- `simple_hash_map_entry` -/
structure SimpleHashMapEntry (T : Type) where
  mValues : List T

/-- What `fast_hash_map` calls on its entries; `prefetch` changes nothing. -/
class HashMapEntry (Q : Type) (T : outParam Type) where
  find : Q → T → Bool

instance {T : Type} [BEq T] : HashMapEntry (SimpleHashMapEntry T) T where
  find := fun entry value => entry.mValues.any fun v => v == value

/-- `fast_hash_map`, with one entry or more; `std::hash` may be any function. -/
structure FastHashMap (T Q : Type) where
  mValues : List Q
  mSize : Nat
  mHash : T → UInt64
  size_eq : mValues.length = mSize
  size_pos : 0 < mSize

/-- A `std::vector` has a size of 64 bits. -/
structure Values (T : Type) where
  toList : List T
  size_lt : toList.length < 2 ^ 64

def Values.size {T : Type} (values : Values T) : Nat := values.toList.length

/-- The vector of results, and which positions of it have been written so far. -/
structure Results where
  result : List Bool
  written : List Nat
  deriving DecidableEq, Repr

namespace Results

/-- `std::vector<bool> result(size, false)` -/
def new (size : Nat) : Results := ⟨List.replicate size false, []⟩

/-- `result[i] = found` -/
def put (r : Results) (i : Nat) (found : Bool) : Except Fault Results := do
  let result ← writeAt r.result i found
  pure ⟨result, r.written ++ [i]⟩

end Results

namespace FastHashMap

variable {T Q : Type} [HashMapEntry Q T] (m : FastHashMap T Q) (lookAhead : Nat) (values : Values T)

def getEntry (v : T) : Nat := (m.mHash v).toNat % m.mSize

/-- `m_values[entry].find(value)` -/
def findIn (entry : Nat) (value : T) : Except Fault Bool := do
  let bucket ← readAt m.mValues entry
  pure (HashMapEntry.find bucket value)

/-- `m_values[entry].prefetch()` -/
def prefetch (entry : Nat) : Except Fault Unit := do
  let _ ← readAt m.mValues entry
  pure ()

def find (value : T) : Except Fault Bool := m.findIn (m.getEntry value) value

/-- `result[i] = find(values[i])` -/
def lookup (r : Results) (i : Nat) : Except Fault Results := do
  let value ← readAt values.toList i
  let found ← m.find value
  r.put i found

def findMultipleSimple : Except Fault Results :=
  (upTo 0 values.size 1).foldlM (m.lookup values) (.new values.size)

/-- One round of the interleaved loop, where `j` is `i + look_ahead`. -/
def interleaveRound (s : Results × List (Option Nat)) (i : Nat) :
    Except Fault (Results × List (Option Nat)) := do
  let (r, hashes) := s
  let j := lookAhead + i
  let entry ← readSet (← readAt hashes (i % hashes.length))
  let value ← readAt values.toList i
  let found ← m.findIn entry value
  let r ← r.put i found
  let ahead ← readAt values.toList j
  let entry := m.getEntry ahead
  let hashes ← writeAt hashes (j % hashes.length) (some entry)
  m.prefetch entry
  pure (r, hashes)

/-- `hashes[i] = get_entry(values[i])` -/
def storeHash (hashes : List (Option Nat)) (i : Nat) : Except Fault (List (Option Nat)) := do
  let value ← readAt values.toList i
  writeAt hashes i (some (m.getEntry value))

def findMultipleInterleave : Except Fault Results := do
  let hashes ← (upTo 0 lookAhead 1).foldlM (m.storeHash values) (List.replicate lookAhead none)
  let (r, _) ← (upTo 0 (wsub 64 values.size lookAhead) 1).foldlM
    (m.interleaveRound lookAhead values) (.new values.size, hashes)
  (upTo (wsub 64 values.size lookAhead) values.size 1).foldlM (m.lookup values) r

/-- `entry = get_entry(values[i + k]); hashes[k] = entry; m_values[entry].prefetch()` -/
def prefetchRound (i : Nat) (hashes : List (Option Nat)) (k : Nat) :
    Except Fault (List (Option Nat)) := do
  let value ← readAt values.toList (i + k)
  let entry := m.getEntry value
  let hashes ← writeAt hashes k (some entry)
  m.prefetch entry
  pure hashes

/-- `result[i + k] = m_values[hashes[k]].find(values[i + k])` -/
def searchRound (hashes : List (Option Nat)) (i : Nat) (r : Results) (k : Nat) :
    Except Fault Results := do
  let entry ← readSet (← readAt hashes k)
  let value ← readAt values.toList (i + k)
  let found ← m.findIn entry value
  r.put (i + k) found

/-- One batch. -/
def batchRound (s : Results × List (Option Nat)) (i : Nat) :
    Except Fault (Results × List (Option Nat)) := do
  let (r, hashes) := s
  let hashes ← (upTo 0 lookAhead 1).foldlM (m.prefetchRound values i) hashes
  let r ← (upTo 0 lookAhead 1).foldlM (m.searchRound values hashes i) r
  pure (r, hashes)

def findMultipleBatch : Except Fault Results := do
  let len := values.size / lookAhead * lookAhead
  let (r, _) ← (upTo 0 len lookAhead).foldlM (m.batchRound lookAhead values)
    (.new values.size, List.replicate lookAhead none)
  (upTo len values.size 1).foldlM (m.lookup values) r

/-! ## Single lookups -/

/-- What a lookup of a value comes to. -/
def answer (value : T) : Bool :=
  match m.mValues[m.getEntry value]? with
  | some bucket => HashMapEntry.find bucket value
  | none => false

omit [HashMapEntry Q T] in
theorem getEntry_lt (value : T) : m.getEntry value < m.mValues.length := by
  rw [m.size_eq]
  exact Nat.mod_lt _ m.size_pos

theorem findIn_eq (value : T) : m.findIn (m.getEntry value) value = .ok (m.answer value) := by
  have hget := List.getElem?_eq_getElem (m.getEntry_lt value)
  rw [findIn, bind_of_ok (readAt_eq_ok.mpr hget), answer, hget]
  rfl

omit [HashMapEntry Q T] in
theorem prefetch_eq (value : T) : m.prefetch (m.getEntry value) = .ok () := by
  have hget := List.getElem?_eq_getElem (m.getEntry_lt value)
  rw [prefetch, bind_of_ok (readAt_eq_ok.mpr hget)]
  rfl

/-! ## Results in the making -/

/-- The results after the first `k` lookups. -/
def progress (k : Nat) : Results :=
  ⟨values.toList.mapIdx fun i v => if i < k then m.answer v else false, List.range k⟩

theorem progress_zero : m.progress values 0 = .new values.size := by
  simp [progress, Results.new, Values.size, List.mapIdx_eq_replicate_iff]

theorem put_progress {k : Nat} {v : T} (h : values.toList[k]? = some v) :
    (m.progress values k).put k (m.answer v) = .ok (m.progress values (k + 1)) := by
  obtain ⟨hk, hv⟩ := List.getElem?_eq_some_iff.mp h
  have hset : (m.progress values k).result.set k (m.answer v) =
      (m.progress values (k + 1)).result := by
    apply List.ext_getElem?
    intro i
    simp only [progress, List.getElem?_set, List.length_mapIdx, List.getElem?_mapIdx]
    by_cases hik : k = i
    · subst hik
      simp [hk, hv]
    · have hlt : i < k + 1 ↔ i < k := by omega
      simp [hik, hlt]
  rw [Results.put, bind_of_ok (writeAt_of_lt _ (by simp [progress, hk])), hset]
  simp [progress, List.range_succ]
  rfl

theorem lookup_progress {k : Nat} (hk : k < values.size) :
    m.lookup values (m.progress values k) k = .ok (m.progress values (k + 1)) := by
  have hget := List.getElem?_eq_getElem hk
  rw [lookup, bind_of_ok (readAt_eq_ok.mpr hget), find, bind_of_ok (m.findIn_eq _)]
  exact m.put_progress values hget

/-- Lookups one by one, from any point on. -/
theorem lookups_progress {first : Nat} (h : first ≤ values.size) :
    (upTo first values.size 1).foldlM (m.lookup values) (m.progress values first) =
      .ok (m.progress values values.size) := by
  obtain ⟨r, hr, hinv⟩ := foldlM_range'_inv (fun k r => r = m.progress values k) first
    (values.size - first)
    (fun k _ hk r hr => ⟨_, by rw [hr]; exact m.lookup_progress values (by omega), rfl⟩) rfl
  rw [upTo_one, hr, hinv, Nat.add_sub_cancel' h]

theorem findMultipleSimple_eq :
    m.findMultipleSimple values = .ok (m.progress values values.size) := by
  rw [findMultipleSimple, ← m.progress_zero values]
  exact m.lookups_progress values (Nat.zero_le _)

/-- The same results as one by one, and no access out of bounds. -/
def Agrees (x : Except Fault Results) : Prop :=
  ∃ out ans, x = .ok out ∧ m.findMultipleSimple values = .ok ans ∧ out.result = ans.result

theorem agrees_of_eq {x : Except Fault Results} (h : x = .ok (m.progress values values.size)) :
    m.Agrees values x :=
  ⟨_, _, h, m.findMultipleSimple_eq values, rfl⟩

/-! ## Buffers of hashes -/

/-- The first `k` slots have the entries of the values from `first` on. -/
structure Filled (first k : Nat) (hashes : List (Option Nat)) : Prop where
  length : hashes.length = lookAhead
  slots : ∀ q < k, ∀ v, values.toList[first + q]? = some v →
    hashes[q]? = some (some (m.getEntry v))

variable {m lookAhead values}

omit [HashMapEntry Q T] in
theorem Filled.zero {first : Nat} {hashes : List (Option Nat)} (h : hashes.length = lookAhead) :
    m.Filled lookAhead values first 0 hashes :=
  ⟨h, fun q hq => absurd hq (Nat.not_lt_zero q)⟩

omit [HashMapEntry Q T] in
theorem Filled.set {first k : Nat} {hashes : List (Option Nat)}
    (h : m.Filled lookAhead values first k hashes) (hk : k < lookAhead) {v : T}
    (hv : values.toList[first + k]? = some v) :
    m.Filled lookAhead values first (k + 1) (hashes.set k (some (m.getEntry v))) := by
  constructor
  · rw [List.length_set, h.length]
  · intro q hq u hu
    rcases Nat.lt_succ_iff_lt_or_eq.mp hq with hlt | rfl
    · rw [List.getElem?_set_ne (Nat.ne_of_gt hlt)]
      exact h.slots q hlt u hu
    · rw [hv, Option.some.injEq] at hu
      rw [List.getElem?_set_self (h.length.symm ▸ hk), hu]

/-! ## Interleaved lookups -/

variable (m lookAhead values)

/-- The ring has the hashes of the values from `i` on. -/
structure Ring (i : Nat) (hashes : List (Option Nat)) : Prop where
  length : hashes.length = lookAhead
  slots : ∀ p v, i ≤ p → p < i + lookAhead → values.toList[p]? = some v →
    hashes[p % lookAhead]? = some (some (m.getEntry v))

variable {m lookAhead values}

omit [HashMapEntry Q T] in
/-- The values that come first are hashed first, if there are as many as the ring is long. -/
theorem storeHashes_ring (h : lookAhead ≤ values.size) :
    ∃ hashes, (upTo 0 lookAhead 1).foldlM (m.storeHash values) (List.replicate lookAhead none) =
      .ok hashes ∧ m.Ring lookAhead values 0 hashes := by
  have hstep : ∀ k < lookAhead, ∀ hashes,
      m.Filled lookAhead values 0 k hashes → ∃ hashes', m.storeHash values hashes k = .ok hashes' ∧
        m.Filled lookAhead values 0 (k + 1) hashes' := by
    intro k hk hashes hfill
    have hget := List.getElem?_eq_getElem (Nat.lt_of_lt_of_le hk h)
    refine ⟨_, ?_, hfill.set hk (by rw [Nat.zero_add]; exact hget)⟩
    rw [storeHash, bind_of_ok (readAt_eq_ok.mpr hget)]
    exact writeAt_of_lt _ (hfill.length.symm ▸ hk)
  obtain ⟨hashes, hrun, hfill⟩ := foldlM_upTo_inv _ lookAhead hstep
    (Filled.zero List.length_replicate)
  refine ⟨hashes, hrun, hfill.length, fun p v _ hp hv => ?_⟩
  rw [Nat.zero_add] at hp
  rw [Nat.mod_eq_of_lt hp]
  exact hfill.slots p hp v (by rw [Nat.zero_add]; exact hv)

/-- The slot that has just been read gets the hash that comes next. -/
theorem interleaveRound_ring {i : Nat} {hashes : List (Option Nat)} (hpos : 1 ≤ lookAhead)
    (h : m.Ring lookAhead values i hashes) (hi : lookAhead + i < values.size) :
    ∃ hashes', m.interleaveRound lookAhead values (m.progress values i, hashes) i =
      .ok (m.progress values (i + 1), hashes') ∧ m.Ring lookAhead values (i + 1) hashes' := by
  obtain ⟨v, hv⟩ : ∃ v, values.toList[i]? = some v :=
    ⟨_, List.getElem?_eq_getElem (Nat.lt_of_le_of_lt (Nat.le_add_left i lookAhead) hi)⟩
  obtain ⟨ahead, hahead⟩ : ∃ u, values.toList[lookAhead + i]? = some u :=
    ⟨_, List.getElem?_eq_getElem hi⟩
  have hslot := h.slots i v (Nat.le_refl i) (by omega) hv
  have hmod : (lookAhead + i) % lookAhead = i % lookAhead := Nat.add_mod_left lookAhead i
  have hin : i % lookAhead < hashes.length := h.length.symm ▸ Nat.mod_lt i hpos
  refine ⟨hashes.set (i % lookAhead) (some (m.getEntry ahead)), ?_, ?_, ?_⟩
  · rw [interleaveRound]
    simp only [h.length, hmod]
    rw [bind_of_ok (readAt_eq_ok.mpr hslot), bind_of_ok (readSet_eq_ok.mpr rfl),
      bind_of_ok (readAt_eq_ok.mpr hv), bind_of_ok (m.findIn_eq v),
      bind_of_ok (m.put_progress values hv), bind_of_ok (readAt_eq_ok.mpr hahead),
      bind_of_ok (writeAt_of_lt _ hin), bind_of_ok (m.prefetch_eq ahead)]
    rfl
  · rw [List.length_set, h.length]
  · intro p u hp hp' hu
    by_cases hslot' : i % lookAhead = p % lookAhead
    · -- among `lookAhead` positions in a row only the last has this slot
      have hlast : p = lookAhead + i := by
        have hdvd : lookAhead ∣ p - i :=
          Nat.dvd_of_mod_eq_zero (Nat.sub_mod_eq_zero_of_mod_eq hslot'.symm)
        have hle := Nat.le_of_dvd (by omega) hdvd
        omega
      rw [hlast, hahead, Option.some.injEq] at hu
      rw [← hslot', List.getElem?_set_self hin, hu]
    · rw [List.getElem?_set_ne hslot']
      refine h.slots p u (by omega) ?_ hu
      rcases Nat.lt_succ_iff_lt_or_eq.mp (show p < i + lookAhead + 1 by omega) with hlt' | heq
      · exact hlt'
      · rw [heq, Nat.add_mod_right] at hslot'
        exact absurd rfl hslot'

/-- **Values enough to fill the ring.** -/
theorem findMultipleInterleave_eq (hpos : 1 ≤ lookAhead) (h : lookAhead ≤ values.size) :
    m.findMultipleInterleave lookAhead values = .ok (m.progress values values.size) := by
  obtain ⟨hashes, hstore, hring⟩ := storeHashes_ring (m := m) h
  have hsub : wsub 64 values.size lookAhead = values.size - lookAhead :=
    wsub_of_le values.size_lt h
  have hstep : ∀ i < values.size - lookAhead, ∀ s : Results × List (Option Nat),
      s.1 = m.progress values i ∧ m.Ring lookAhead values i s.2 →
      ∃ t, m.interleaveRound lookAhead values s i = .ok t ∧
        t.1 = m.progress values (i + 1) ∧ m.Ring lookAhead values (i + 1) t.2 := by
    rintro i hi ⟨r, hashes⟩ ⟨rfl, hring⟩
    obtain ⟨hashes', hround, hring'⟩ := interleaveRound_ring hpos hring (by omega)
    exact ⟨_, hround, rfl, hring'⟩
  have hinit : (Results.new values.size, hashes).1 = m.progress values 0 ∧
      m.Ring lookAhead values 0 (Results.new values.size, hashes).2 :=
    ⟨(m.progress_zero values).symm, hring⟩
  obtain ⟨⟨r, hashes'⟩, hloop, hr, -⟩ := foldlM_upTo_inv _ (values.size - lookAhead) hstep hinit
  have hr' : r = m.progress values (values.size - lookAhead) := hr
  rw [findMultipleInterleave, bind_of_ok hstore, hsub, bind_of_ok hloop, hr']
  exact m.lookups_progress values (Nat.sub_le _ _)

/-- The ring is filled from behind the end of a vector that is shorter. -/
theorem le_size_of_ok {out : Results} (hpos : 1 ≤ lookAhead)
    (h : m.findMultipleInterleave lookAhead values = .ok out) : lookAhead ≤ values.size := by
  obtain ⟨hashes, hstore, -⟩ := bind_eq_ok.mp h
  rw [upTo_one] at hstore
  have hmem : lookAhead - 1 ∈ List.range' 0 (lookAhead - 0) := by
    rw [List.mem_range'_1]
    omega
  have hlast : lookAhead - 1 < values.size := by
    refine foldlM_reaches (P := fun _ => lookAhead - 1 < values.size) hmem ?_ ?_ hstore
    · intro s t hstep
      obtain ⟨v, hv, -⟩ := bind_eq_ok.mp hstep
      exact (List.getElem?_eq_some_iff.mp (readAt_eq_ok.mp hv)).1
    · intro k _ s t hlt _
      exact hlt
  omega

/-- **Interleaved lookups are plain ones if there are at least `look_ahead` values.** -/
theorem interleave_agrees_iff (m : FastHashMap T Q) (values : Values T) (lookAhead : Nat)
    (hpos : 1 ≤ lookAhead) :
    m.Agrees values (m.findMultipleInterleave lookAhead values) ↔ lookAhead ≤ values.size := by
  constructor
  · rintro ⟨out, ans, hout, -, -⟩
    exact le_size_of_ok hpos hout
  · intro h
    exact m.agrees_of_eq values (findMultipleInterleave_eq hpos h)

end FastHashMap

/-- Two buckets, for the even and the odd numbers. -/
def exampleMap : FastHashMap Nat (SimpleHashMapEntry Nat) :=
  ⟨[⟨[4, 2]⟩, ⟨[1]⟩], 2, UInt64.ofNat, rfl, by decide⟩

def exampleValues : Values Nat := ⟨[2, 3, 1], by decide⟩

/-- A ring of two hashes. -/
theorem interleave_agrees_two : exampleMap.Agrees exampleValues
    (exampleMap.findMultipleInterleave 2 exampleValues) :=
  (FastHashMap.interleave_agrees_iff exampleMap exampleValues 2 (by decide)).mpr (by decide)

/-- The default of sixteen hashes, for three values. -/
theorem interleave_short :
    ¬ exampleMap.Agrees exampleValues (exampleMap.findMultipleInterleave 16 exampleValues) := by
  rintro ⟨out, ans, hout, -, -⟩
  exact absurd (FastHashMap.le_size_of_ok (by decide) hout) (by decide)

namespace FastHashMap

/-! ## Lookups in batches -/

variable {T Q : Type} [HashMapEntry Q T] {m : FastHashMap T Q} {lookAhead : Nat}
  {values : Values T}

omit [HashMapEntry Q T] in
/-- The buffer is filled for a batch that lies in the vector. -/
theorem prefetchRounds_filled {i : Nat} (hi : i + lookAhead ≤ values.size)
    {hashes : List (Option Nat)} (hlen : hashes.length = lookAhead) :
    ∃ hashes', (upTo 0 lookAhead 1).foldlM (m.prefetchRound values i) hashes = .ok hashes' ∧
      m.Filled lookAhead values i lookAhead hashes' := by
  have hstep : ∀ k < lookAhead, ∀ hashes, m.Filled lookAhead values i k hashes →
      ∃ hashes', m.prefetchRound values i hashes k = .ok hashes' ∧
        m.Filled lookAhead values i (k + 1) hashes' := by
    intro k hk hashes hfill
    obtain ⟨v, hv⟩ : ∃ v, values.toList[i + k]? = some v :=
      ⟨_, List.getElem?_eq_getElem (Nat.lt_of_lt_of_le (Nat.add_lt_add_left hk i) hi)⟩
    refine ⟨_, ?_, hfill.set hk hv⟩
    rw [prefetchRound, bind_of_ok (readAt_eq_ok.mpr hv),
      bind_of_ok (writeAt_of_lt _ (hfill.length.symm ▸ hk)), bind_of_ok (m.prefetch_eq v)]
    rfl
  exact foldlM_upTo_inv _ lookAhead hstep (Filled.zero hlen)

/-- The values of the batch are looked up in the entries of the buffer. -/
theorem searchRounds_progress {i : Nat} (hi : i + lookAhead ≤ values.size)
    {hashes : List (Option Nat)} (hfill : m.Filled lookAhead values i lookAhead hashes) :
    (upTo 0 lookAhead 1).foldlM (m.searchRound values hashes i) (m.progress values i) =
      .ok (m.progress values (i + lookAhead)) := by
  have hstep : ∀ k < lookAhead, ∀ r, r = m.progress values (i + k) →
      ∃ r', m.searchRound values hashes i r k = .ok r' ∧ r' = m.progress values (i + (k + 1)) := by
    rintro k hk r rfl
    obtain ⟨v, hv⟩ : ∃ v, values.toList[i + k]? = some v :=
      ⟨_, List.getElem?_eq_getElem (Nat.lt_of_lt_of_le (Nat.add_lt_add_left hk i) hi)⟩
    refine ⟨_, ?_, rfl⟩
    rw [searchRound, bind_of_ok (readAt_eq_ok.mpr (hfill.slots k hk v hv)),
      bind_of_ok (readSet_eq_ok.mpr rfl), bind_of_ok (readAt_eq_ok.mpr hv),
      bind_of_ok (m.findIn_eq v)]
    exact m.put_progress values hv
  obtain ⟨r, hrun, hr⟩ := foldlM_upTo_inv _ lookAhead hstep rfl
  rw [Nat.add_zero] at hrun
  rw [hrun, hr]

/-- One batch. -/
theorem batchRound_progress {i : Nat} (hi : i + lookAhead ≤ values.size)
    {hashes : List (Option Nat)} (hlen : hashes.length = lookAhead) :
    ∃ hashes', m.batchRound lookAhead values (m.progress values i, hashes) i =
      .ok (m.progress values (i + lookAhead), hashes') ∧ hashes'.length = lookAhead := by
  obtain ⟨hashes', hprefetch, hfill⟩ := prefetchRounds_filled (m := m) hi hlen
  refine ⟨hashes', ?_, hfill.length⟩
  rw [batchRound, bind_of_ok hprefetch, bind_of_ok (searchRounds_progress hi hfill)]
  rfl

/-- **Whole batches, and what is left of the values.** -/
theorem findMultipleBatch_eq (hpos : 1 ≤ lookAhead) :
    m.findMultipleBatch lookAhead values = .ok (m.progress values values.size) := by
  have hle : values.size / lookAhead * lookAhead ≤ values.size :=
    Nat.div_mul_le_self values.size lookAhead
  have hstep : ∀ t < values.size / lookAhead, ∀ s : Results × List (Option Nat),
      s.1 = m.progress values (t * lookAhead) ∧ s.2.length = lookAhead →
      ∃ s', m.batchRound lookAhead values s (t * lookAhead) = .ok s' ∧
        s'.1 = m.progress values ((t + 1) * lookAhead) ∧ s'.2.length = lookAhead := by
    rintro t ht ⟨r, hashes⟩ ⟨rfl, hlen⟩
    have hbatch : t * lookAhead + lookAhead ≤ values.size := by
      rw [← Nat.succ_mul]
      exact Nat.le_trans (Nat.mul_le_mul_right lookAhead (by omega)) hle
    obtain ⟨hashes', hround, hlen'⟩ := batchRound_progress (m := m) hbatch hlen
    exact ⟨_, hround, by rw [Nat.succ_mul], hlen'⟩
  have hinit : (Results.new values.size, List.replicate lookAhead (none : Option Nat)).1 =
        m.progress values (0 * lookAhead) ∧
      (Results.new values.size, List.replicate lookAhead (none : Option Nat)).2.length =
        lookAhead := by
    rw [Nat.zero_mul]
    exact ⟨(m.progress_zero values).symm, List.length_replicate⟩
  obtain ⟨⟨r, hashes⟩, hloop, hr, -⟩ := foldlM_range_inv _ (values.size / lookAhead) hstep hinit
  have hr' : r = m.progress values (values.size / lookAhead * lookAhead) := hr
  rw [findMultipleBatch, upTo_stride hpos, List.foldlM_map, bind_of_ok hloop, hr']
  exact m.lookups_progress values hle

/-- **Lookups in batches are plain ones**, and every result is written once. -/
theorem batch_agrees (m : FastHashMap T Q) (values : Values T) (lookAhead : Nat)
    (hpos : 1 ≤ lookAhead) :
    m.Agrees values (m.findMultipleBatch lookAhead values) ∧
      ∃ out, m.findMultipleBatch lookAhead values = .ok out ∧
        ∀ i < values.size, out.written.count i = 1 := by
  have heq : m.findMultipleBatch lookAhead values = .ok (m.progress values values.size) :=
    findMultipleBatch_eq hpos
  refine ⟨m.agrees_of_eq values heq, _, heq, fun i hi => ?_⟩
  exact List.count_eq_one_of_mem List.nodup_range (List.mem_range.mpr hi)

end FastHashMap

/-- One batch of two, and one value that is left. -/
theorem batch_agrees_two :
    exampleMap.Agrees exampleValues (exampleMap.findMultipleBatch 2 exampleValues) :=
  (FastHashMap.batch_agrees exampleMap exampleValues 2 (by decide)).1

end Doradd.Prefetch
