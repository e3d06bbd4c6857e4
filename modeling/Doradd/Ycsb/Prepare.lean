import Doradd.Dispatcher.InPlace
import Doradd.Ycsb.GenLog

/-!
# Pointers of YCSB records

* `pointers_agree`: after any calls of `prepare_cowns` the transactions take the rows of
  their keys.
-/

namespace Doradd.Ycsb.YCSBTransactionMarshalled

open Lib

/-! ## ycsb.cc -/

/-- `txm->indices[i]` -/
def key (mem : List UInt8) (p i : Nat) : UInt32 := UInt32.ofNat (field mem (p + 4 * i) 4)

/-- The stores of `prepare_cowns`; `rowAddr` is `get_row(key).get_base_addr()`. -/
def cownStores (rowAddr : UInt64 → UInt64) (p : Nat) : List PtrStore :=
  (List.range rowsPerTx).map fun i => ⟨i, fun mem => rowAddr (key mem p i).toUInt64⟩

/-- `prepare_cowns` of the packed struct. -/
def preparer (rowAddr : UInt64 → UInt64) : Preparer where
  recordSize := size
  ptrs := 42
  len := rowsPerTx
  ptrs_fit := by decide
  stores := fun _ p => cownStores rowAddr p
  stores_congr := fun _ => rfl

/-- The pointers that `parse_and_process` takes: `GET_COWN(0)` to `GET_COWN(9)`. -/
def takenPtrs (mem : List UInt8) (p : Nat) : List UInt64 :=
  let cownPtrs := fun j => UInt64.ofNat (field mem (p + (42 + 8 * j)) 8)
  [cownPtrs 0, cownPtrs 1, cownPtrs 2, cownPtrs 3, cownPtrs 4, cownPtrs 5, cownPtrs 6, cownPtrs 7,
    cownPtrs 8, cownPtrs 9]

/-! ## Elements and keys -/

section

variable {mem mem' : List UInt8} {p : Nat}

theorem getElem_indices (mem : List UInt8) (p : Nat) {i : Nat} (hi : i < rowsPerTx) :
    (read mem p).indices[i] = key mem p i := Vector.getElem_ofFn hi

/-- The keys and the write set are read from the bytes before the pointers. -/
theorem read_of_keys (h : SameOn (Set.Ico p (p + 42)) mem mem') :
    (read mem' p).indices = (read mem p).indices ∧
      (read mem' p).writeSet = (read mem p).writeSet := by
  constructor
  · ext i hi
    have hlt : i < 10 := hi
    rw [getElem_indices mem' p hi, getElem_indices mem p hi, key, key,
      (h.mono (Set.Ico_subset_Ico (by omega) (by omega))).field]
  · simp only [read]
    rw [(h.mono (Set.Ico_subset_Ico (by omega) (by omega))).field]

variable (rowAddr : UInt64 → UInt64)

/-- The addresses that are stored are those of the rows of the record, key by key. -/
theorem cownStores_addr : ((preparer rowAddr).stores mem p).map (fun s => s.addr mem) =
    ((read mem p).indices.toList.map UInt32.toUInt64).map rowAddr := by
  show (cownStores rowAddr p).map (fun s => s.addr mem) = _
  apply List.ext_getElem
  · rw [List.length_map, List.length_map, List.length_map, cownStores, List.length_map,
      List.length_range, Vector.length_toList]
  · intro i hi hi'
    rw [List.length_map, List.length_map, Vector.length_toList] at hi'
    rw [List.getElem_map, List.getElem_map, List.getElem_map, Vector.getElem_toList,
      getElem_indices mem p hi']
    simp only [cownStores, List.getElem_map, List.getElem_range]

theorem takenPtrs_eq (mem : List UInt8) (p : Nat) : takenPtrs mem p =
    ((preparer rowAddr).stores mem p).map fun s => (preparer rowAddr).cownPtr mem p s.elem := rfl

theorem fit (hfits : p + size ≤ mem.length) : (preparer rowAddr).Fit mem p where
  fits := hfits
  reads := by
    intro s hs mem₁ mem₂ hsame
    obtain ⟨i, hi, rfl⟩ := List.mem_map.mp hs
    have hlt : i < 10 := List.mem_range.mp hi
    have hkey : SameOn (Set.Ico (p + 4 * i) (p + 4 * i + 4)) mem₁ mem₂ :=
      hsame.mono (Set.Ico_subset_Ico (by omega) (by simp only [preparer]; omega))
    simp only [key, hkey.field]
  elems := by
    intro s hs
    obtain ⟨i, hi, rfl⟩ := List.mem_map.mp hs
    exact List.mem_range.mp hi
  distinct := by
    have helems : (cownStores rowAddr p).map PtrStore.elem = List.range rowsPerTx := rfl
    exact helems ▸ List.nodup_range

end

/-! ## Calls on a log -/

variable {κ : Type}

/-- `Index::get_row` -/
def getRow (map : Fin dbSize → κ) (key : UInt64) : Option κ :=
  if h : key.toNat < dbSize then some (map ⟨key.toNat, h⟩) else none

/-- The records lie in the buffer, and name rows of the index. -/
structure WellFormed (log : Log) (mem : List UInt8) : Prop where
  recordSize : log.recordSize = size
  fits : ∀ k < log.readCount, log.record k + size ≤ mem.length
  below : ∀ k < log.readCount, ∀ key ∈ (read mem (log.record k)).indices.toList,
    key.toNat < dbSize

theorem size_pos : 0 < size := Nat.zero_lt_succ 127

/-- The log of a file. -/
def log (mem : List UInt8) : Log := Log.ofFile size size_pos mem

/-- A log of transactions whose keys are in the index is well formed. -/
theorem genLog_wellFormed {txns : List Txn} (hcount : txns.length < 2 ^ 32)
    (hkeys : ∀ t ∈ txns, ∀ key ∈ t.keys.toList, key.toNat < dbSize) :
    WellFormed (log (genLog txns)) (genLog txns) := by
  have hlen : (genLog txns).length = 4 + size * txns.length :=
    length_logFile fun t _ => length_genBinTxn t
  have hread : (log (genLog txns)).readCount = txns.length := by
    rw [log, genLog, readCount_logFile, UInt32.toNat_ofNat', Nat.mod_mod]
    exact Nat.mod_eq_of_lt hcount
  refine ⟨rfl, fun k hk => ?_, fun k hk => ?_⟩
  · rw [hread] at hk
    have hle : size * (k + 1) ≤ size * txns.length := Nat.mul_le_mul_left size hk
    have hrecord : (log (genLog txns)).record k = 4 + k * size := rfl
    rw [hlen, hrecord, Nat.mul_comm k]
    rw [Nat.mul_succ] at hle
    omega
  · rw [hread] at hk
    have htxn := read_genLog txns hk
    rw [log, htxn]
    exact hkeys _ (List.getElem_mem hk)

/-- The buffer after calls of `prepare_cowns` on the records `ks`. -/
structure PointersAgree (rt : CownAddrs κ) (map : Fin dbSize → κ) (log : Log) (ks : List Nat)
    (mem mem' : List UInt8) : Prop where
  indices : ∀ k < log.readCount,
    (read mem' (log.record k)).indices = (read mem (log.record k)).indices
  writeSets : ∀ k < log.readCount,
    (read mem' (log.record k)).writeSet = (read mem (log.record k)).writeSet
  others : ∀ k < log.readCount, k ∉ ks →
    SameOn (Set.Ico (log.record k) (log.record k + size)) mem mem'
  rest : SameOn { i | ∀ k ∈ ks, i ∉ Set.Ico (log.record k + 42) (log.record k + 122) } mem mem'
  taken : ∀ k ∈ ks, PointTo rt (getRow map) (takenPtrs mem' (log.record k))
    ((read mem (log.record k)).indices.toList.map UInt32.toUInt64)

/-- **Calls of `prepare_cowns`, in any order and any number of them.** -/
theorem WellFormed.prepareAll {log : Log} {mem : List UInt8} (h : WellFormed log mem)
    (rt : CownAddrs κ) (map : Fin dbSize → κ) (stray : UInt64 → UInt64) {ks : List Nat}
    (hks : ∀ k ∈ ks, k < log.readCount) :
    PointersAgree rt map log ks mem
      ((preparer (lookupAddr rt (getRow map) stray)).prepareAll log ks mem) := by
  have hprep := Preparer.prepared (P := preparer (lookupAddr rt (getRow map) stray)) h.recordSize ks
    fun k hk => fit _ (h.fits k (hks k hk))
  constructor
  · intro k _
    exact (read_of_keys (hprep.keys h.recordSize k)).1
  · intro k _
    exact (read_of_keys (hprep.keys h.recordSize k)).2
  · intro k _ hk
    exact hprep.others h.recordSize hk
  · exact hprep.rest
  · intro k hk
    have hkeys := hprep.keys h.recordSize k
    rw [takenPtrs_eq (lookupAddr rt (getRow map) stray), Preparer.stores_congr _ hkeys,
      hprep.map_cownPtr hk, cownStores_addr]
    apply pointTo_lookupAddr
    intro key hkey
    obtain ⟨i, hi, rfl⟩ := List.mem_map.mp hkey
    have hbelow := h.below k (hks k hk) i hi
    rw [getRow, dif_pos (by rwa [UInt32.toNat_toUInt64])]
    rfl

end Doradd.Ycsb.YCSBTransactionMarshalled
