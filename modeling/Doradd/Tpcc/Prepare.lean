import Doradd.Dispatcher.InPlace
import Doradd.Tpcc.GenRecords

/-!
# Pointers of TPC-C records

`prepare_cowns` chooses the elements of the pointer array in loops, the transaction takes
them through macros that count in their own way.

* `fit`: valid records are prepared from their keys, into different elements;
* `takenPtrs_eq`: the macros take the elements that the loops store, in the order of the
  keys;
* `contained_iff`: which counts keep `prepare_cowns` within its record.
-/

namespace Doradd.Tpcc.TPCCTransactionMarshalled

open Lib

/-! ## tpcc.cc -/

/-- `txm->params[j]`, also past the end of the array. -/
def param (mem : List UInt8) (p j : Nat) : UInt32 := UInt32.ofNat (field mem (p + (1 + 4 * j)) 4)

/-- `txm->txn_type` -/
def typeOf (mem : List UInt8) (p : Nat) : UInt8 := UInt8.ofNat (field mem (p + 0) 1)

section

variable (rowAddr : Cown → UInt64) (p : Nat)

/-- The stores that both types of transactions begin with; `rowAddr` is
`get_row_addr(key)->get_base_addr()` of a table. -/
def headStores : List PtrStore :=
  [⟨0, fun mem => rowAddr (.warehouse, Warehouse.staticHashKey (param mem p 0))⟩,
    ⟨1, fun mem => rowAddr (.district, District.staticHashKey (param mem p 0) (param mem p 1))⟩,
    ⟨2, fun mem => rowAddr (.customer,
      Customer.staticHashKey (param mem p 0) (param mem p 1) (param mem p 2))⟩]

def stockStore (i : Nat) : PtrStore :=
  ⟨3 + i, fun mem => rowAddr (.stock,
    Stock.staticHashKey (param mem p (20 + i)) (param mem p (5 + i)))⟩

def itemStore (i : Nat) : PtrStore :=
  ⟨18 + i, fun mem => rowAddr (.item, Item.staticHashKey (param mem p (5 + i)))⟩

/-- The stores of `prepare_cowns`.  The loops test `params[50]` in every round, but it
comes before all that is stored. -/
def cownStores (mem : List UInt8) (p : Nat) : List PtrStore :=
  let numberOfItems := (param mem p 50).toNat
  if typeOf mem p = 0 then
    headStores rowAddr p ++
      ((List.range numberOfItems).map (stockStore rowAddr p) ++
        (List.range numberOfItems).map (itemStore rowAddr p))
  else if typeOf mem p = 1 then headStores rowAddr p
  else []

end

/-- The type and the parameters are read from the bytes before the pointers. -/
theorem read_of_keys {mem mem' : List UInt8} {p : Nat}
    (h : SameOn (Set.Ico p (p + 261)) mem mem') :
    typeOf mem' p = typeOf mem p ∧ ∀ j < 65, param mem' p j = param mem p j := by
  constructor
  · rw [typeOf, typeOf, (h.mono (Set.Ico_subset_Ico (by omega) (by omega))).field]
  · intro j hj
    rw [param, param, (h.mono (Set.Ico_subset_Ico (by omega) (by omega))).field]

/-- `prepare_cowns` of the packed struct. -/
def preparer (rowAddr : Cown → UInt64) : Preparer where
  recordSize := size
  ptrs := 261
  len := 33
  ptrs_fit := by decide
  stores := cownStores rowAddr
  stores_congr := by
    intro mem mem' p h
    obtain ⟨htype, hparam⟩ := read_of_keys h
    simp only [cownStores, htype, hparam 50 (by decide)]

/-! ## tpcc_macros.m4 -/

/-- `GET_COWN_PTR_STOCK_n` -/
def getCownPtrStock (cownPtrs : Nat → UInt64) : Nat → List UInt64
  | 0 => []
  | 1 => [cownPtrs 3]
  | n + 2 => getCownPtrStock cownPtrs (n + 1) ++ [cownPtrs (2 + (n + 2))]

/-- `GET_COWN_PTR_ITEM_n` -/
def getCownPtrItem (cownPtrs : Nat → UInt64) : Nat → List UInt64
  | 0 => []
  | 1 => [cownPtrs 18]
  | n + 2 => getCownPtrItem cownPtrs (n + 1) ++ [cownPtrs (17 + (n + 2))]

/-- The pointers that `parse_and_process` takes from the array, for a case of its switch
or for the default. -/
def takenPtrs (mem : List UInt8) (p : Nat) : List UInt64 :=
  let cownPtrs := fun j => UInt64.ofNat (field mem (p + (261 + 8 * j)) 8)
  let itemNumber := (param mem p 50).toNat
  if typeOf mem p = 0 then
    [cownPtrs 0, cownPtrs 1, cownPtrs 2] ++
      if 1 ≤ itemNumber ∧ itemNumber ≤ 15 then
        getCownPtrStock cownPtrs itemNumber ++ getCownPtrItem cownPtrs itemNumber
      else []
  else if typeOf mem p = 1 then [cownPtrs 0, cownPtrs 1, cownPtrs 2]
  else []

theorem getCownPtrStock_eq (cownPtrs : Nat → UInt64) (n : Nat) :
    getCownPtrStock cownPtrs n = (List.range n).map fun i => cownPtrs (3 + i) := by
  induction n using getCownPtrStock.induct with
  | case1 => rfl
  | case2 => rfl
  | case3 n ih =>
    rw [getCownPtrStock, ih, List.range_succ (n := n + 1), List.map_append, List.map_singleton,
      show 2 + (n + 2) = 3 + (n + 1) by omega]

theorem getCownPtrItem_eq (cownPtrs : Nat → UInt64) (n : Nat) :
    getCownPtrItem cownPtrs n = (List.range n).map fun i => cownPtrs (18 + i) := by
  induction n using getCownPtrItem.induct with
  | case1 => rfl
  | case2 => rfl
  | case3 n ih =>
    rw [getCownPtrItem, ih, List.range_succ (n := n + 1), List.map_append, List.map_singleton,
      show 17 + (n + 2) = 18 + (n + 1) by omega]

/-! ## Elements and keys -/

section

variable (rowAddr : Cown → UInt64) {sc : Scale} {mem mem' : List UInt8} {p : Nat}

theorem read_txnType_eq (mem : List UInt8) (p : Nat) : (read mem p).txnType = typeOf mem p := rfl

theorem read_param (mem : List UInt8) (p : Nat) {j : Nat} (hj : j < 65) :
    (read mem p).params[j] = param mem p j := Vector.getElem_ofFn hj

theorem numberOfItems_read (mem : List UInt8) (p : Nat) :
    (read mem p).numberOfItems = param mem p 50 := read_param mem p (by decide)

/-- The rounds of a loop over the items are the lines of the order. -/
theorem map_range_lines {α : Type} {txm : TPCCTransactionMarshalled}
    (h : txm.numberOfItems.toNat ≤ 15) (g : Nat → α) :
    (List.range txm.numberOfItems.toNat).map g = txm.lines.map fun k => g k.val := by
  unfold lines
  apply List.ext_getElem
  · rw [List.length_map, List.length_range, List.length_map, List.length_take,
      List.length_finRange, Nat.min_eq_left h]
  · intro k hk hk'
    rw [List.getElem_map, List.getElem_map, List.getElem_range, List.getElem_take,
      List.getElem_finRange]
    rfl

theorem wId_read (mem : List UInt8) (p : Nat) : (read mem p).wId = param mem p 0 :=
  read_param mem p (by decide)

theorem dId_read (mem : List UInt8) (p : Nat) : (read mem p).dId = param mem p 1 :=
  read_param mem p (by decide)

theorem cId_read (mem : List UInt8) (p : Nat) : (read mem p).cId = param mem p 2 :=
  read_param mem p (by decide)

theorem iId_read (mem : List UInt8) (p : Nat) (k : Fin 15) :
    (read mem p).iId k = param mem p (5 + k.val) := read_param mem p (by omega)

theorem iWId_read (mem : List UInt8) (p : Nat) (k : Fin 15) :
    (read mem p).iWId k = param mem p (20 + k.val) := read_param mem p (by omega)

theorem headStores_addr :
    (headStores rowAddr p).map (fun s => s.addr mem) =
      [((.warehouse, (read mem p).warehouseKey) : Cown), (.district, (read mem p).districtKey),
        (.customer, (read mem p).customerKey)].map rowAddr := by
  simp only [headStores, List.map_cons, List.map_nil, warehouseKey, districtKey, customerKey,
    wId_read, dId_read, cId_read]

theorem stockStores_addr (h : (read mem p).numberOfItems.toNat ≤ 15) :
    ((List.range (read mem p).numberOfItems.toNat).map (stockStore rowAddr p)).map
        (fun s => s.addr mem) =
      ((read mem p).lines.map fun k => ((.stock, (read mem p).stockKey k) : Cown)).map
        rowAddr := by
  rw [List.map_map, List.map_map, map_range_lines h]
  refine List.map_congr_left fun k _ => ?_
  simp only [Function.comp_apply, stockStore, stockKey, iId_read, iWId_read]

theorem itemStores_addr (h : (read mem p).numberOfItems.toNat ≤ 15) :
    ((List.range (read mem p).numberOfItems.toNat).map (itemStore rowAddr p)).map
        (fun s => s.addr mem) =
      ((read mem p).lines.map fun k => ((.item, (read mem p).itemKey k) : Cown)).map
        rowAddr := by
  rw [List.map_map, List.map_map, map_range_lines h]
  refine List.map_congr_left fun k _ => ?_
  simp only [Function.comp_apply, itemStore, itemKey, iId_read]

/-- **The addresses that are stored are those of the rows of the record, key by key.** -/
theorem cownStores_addr (h : (read mem p).txnType = 0 → (read mem p).numberOfItems ≤ 15) :
    ((preparer rowAddr).stores mem p).map (fun s => s.addr mem) =
      (read mem p).prepareCowns.map rowAddr := by
  show (cownStores rowAddr mem p).map (fun s => s.addr mem) = _
  unfold cownStores prepareCowns
  rw [← read_txnType_eq, ← numberOfItems_read]
  split
  · rename_i ht
    have hcount : (read mem p).numberOfItems.toNat ≤ 15 := UInt32.le_iff_toNat_le.mp (h ht)
    rw [List.map_append, List.map_append, List.map_append, List.map_append, headStores_addr,
      stockStores_addr rowAddr hcount, itemStores_addr rowAddr hcount]
  · split
    · exact headStores_addr rowAddr
    · rfl

/-- **The macros take the elements that the loops store.** -/
theorem takenPtrs_eq (h : typeOf mem p = 0 →
    1 ≤ (param mem p 50).toNat ∧ (param mem p 50).toNat ≤ 15) :
    takenPtrs mem p = ((preparer rowAddr).stores mem p).map fun s =>
      (preparer rowAddr).cownPtr mem p s.elem := by
  show _ = (cownStores rowAddr mem p).map _
  by_cases ht : typeOf mem p = 0
  · simp only [takenPtrs, cownStores, if_pos ht, if_pos (h ht), getCownPtrStock_eq,
      getCownPtrItem_eq, List.map_append, List.map_map]
    rfl
  · simp only [takenPtrs, cownStores, if_neg ht]
    split
    · rfl
    · rfl

/-! ## Valid records -/

theorem mem_cownStores {s : PtrStore} (hs : s ∈ cownStores rowAddr mem p) :
    s ∈ headStores rowAddr p ∨ typeOf mem p = 0 ∧ ∃ i < (param mem p 50).toNat,
      s = stockStore rowAddr p i ∨ s = itemStore rowAddr p i := by
  by_cases ht : typeOf mem p = 0
  · simp only [cownStores, if_pos ht, List.mem_append, List.mem_map, List.mem_range] at hs
    rcases hs with hs | ⟨i, hi, rfl⟩ | ⟨i, hi, rfl⟩
    · exact Or.inl hs
    · exact Or.inr ⟨ht, i, hi, Or.inl rfl⟩
    · exact Or.inr ⟨ht, i, hi, Or.inr rfl⟩
  · simp only [cownStores, if_neg ht] at hs
    split at hs
    · exact Or.inl hs
    · cases hs

theorem headStores_elems : (headStores rowAddr p).map PtrStore.elem = [0, 1, 2] := rfl

/-- Every address is looked up by keys of the record. -/
theorem cownStores_reads (h : typeOf mem p = 0 → (param mem p 50).toNat ≤ 15) {s : PtrStore}
    (hs : s ∈ cownStores rowAddr mem p) {mem₁ mem₂ : List UInt8}
    (hsame : SameOn (Set.Ico p (p + 261)) mem₁ mem₂) : s.addr mem₂ = s.addr mem₁ := by
  obtain ⟨-, hparam⟩ := read_of_keys hsame
  rcases mem_cownStores rowAddr hs with hs | ⟨ht, i, hi, rfl | rfl⟩
  · simp only [headStores, List.mem_cons, List.not_mem_nil, or_false] at hs
    rcases hs with rfl | rfl | rfl <;>
      simp only [hparam 0 (by decide), hparam 1 (by decide), hparam 2 (by decide)]
  · have hn := h ht
    simp only [stockStore, hparam (20 + i) (by omega), hparam (5 + i) (by omega)]
  · have hn := h ht
    simp only [itemStore, hparam (5 + i) (by omega)]

/-- The loops store into different elements. -/
theorem cownStores_distinct (h : typeOf mem p = 0 → (param mem p 50).toNat ≤ 15) :
    ((cownStores rowAddr mem p).map PtrStore.elem).Nodup := by
  by_cases ht : typeOf mem p = 0
  · have hn := h ht
    have hloop : ∀ base n : Nat, ((List.range n).map fun i => base + i).Nodup := fun base n =>
      List.nodup_range.map fun i j hij => Nat.add_left_cancel hij
    simp only [cownStores, if_pos ht, List.map_append, List.map_map, headStores_elems]
    rw [List.nodup_append, List.nodup_append]
    refine ⟨by decide, ⟨hloop 3 _, hloop 18 _, ?_⟩, ?_⟩
    · intro a ha b hb hab
      obtain ⟨i, hi, rfl⟩ := List.mem_map.mp ha
      obtain ⟨j, hj, rfl⟩ := List.mem_map.mp hb
      rw [List.mem_range] at hi hj
      simp only [Function.comp_apply, stockStore, itemStore] at hab
      omega
    · intro a ha b hb hab
      have ha' : a < 3 := by
        simp only [List.mem_cons, List.not_mem_nil, or_false] at ha
        omega
      rcases List.mem_append.mp hb with hb | hb
      · obtain ⟨i, hi, rfl⟩ := List.mem_map.mp hb
        simp only [Function.comp_apply, stockStore] at hab
        omega
      · obtain ⟨i, hi, rfl⟩ := List.mem_map.mp hb
        simp only [Function.comp_apply, itemStore] at hab
        omega
  · simp only [cownStores, if_neg ht]
    split
    · rw [headStores_elems]
      decide
    · exact List.nodup_nil

theorem itemStore_mem (ht : typeOf mem p = 0) {i : Nat} (hi : i < (param mem p 50).toNat) :
    itemStore rowAddr p i ∈ cownStores rowAddr mem p := by
  simp only [cownStores, if_pos ht, List.mem_append]
  exact Or.inr (Or.inr (List.mem_map_of_mem (List.mem_range.mpr hi)))

/-- **Which stores stay in the array.** -/
theorem cownStores_elem_lt :
    (∀ s ∈ cownStores rowAddr mem p, s.elem < 33) ↔
      typeOf mem p ≠ 0 ∨ (param mem p 50).toNat ≤ 15 := by
  constructor
  · intro h
    by_contra hnot
    rw [not_or, not_not] at hnot
    obtain ⟨ht, hn⟩ := hnot
    -- the sixteenth item goes behind the last element
    have hlt : 18 + 15 < 33 := h _ (itemStore_mem rowAddr ht (i := 15) (by omega))
    omega
  · intro h s hs
    rcases mem_cownStores rowAddr hs with hs | ⟨ht, i, hi, rfl | rfl⟩
    · have hmem := List.mem_map_of_mem (f := PtrStore.elem) hs
      simp only [headStores_elems, List.mem_cons, List.not_mem_nil, or_false] at hmem
      omega
    · have hn := h.resolve_left (not_not.mpr ht)
      simp only [stockStore]
      omega
    · have hn := h.resolve_left (not_not.mpr ht)
      simp only [itemStore]
      omega

theorem Valid.count_toNat (h : (read mem p).Valid sc) (ht : typeOf mem p = 0) :
    1 ≤ (param mem p 50).toNat ∧ (param mem p 50).toNat ≤ 15 := by
  have hcount := h.count ht
  rw [numberOfItems_read] at hcount
  exact ⟨UInt32.le_iff_toNat_le.mp hcount.1, UInt32.le_iff_toNat_le.mp hcount.2⟩

/-- **Valid records are prepared from their keys, into different elements.** -/
theorem Valid.fit (h : (read mem p).Valid sc) (hfits : p + size ≤ mem.length) :
    (preparer rowAddr).Fit mem p where
  fits := hfits
  reads := fun s hs mem₁ mem₂ hsame =>
    cownStores_reads rowAddr (fun ht => (h.count_toNat ht).2) hs hsame
  elems := by
    apply (cownStores_elem_lt rowAddr).mpr
    by_cases ht : typeOf mem p = 0
    · exact Or.inr (h.count_toNat ht).2
    · exact Or.inl ht
  distinct := cownStores_distinct rowAddr fun ht => (h.count_toNat ht).2

/-- **A call stays within the pointers of its record if the count is at most fifteen, or
it is no NewOrder.** -/
theorem contained_iff : (preparer rowAddr).Contained mem p ↔
    typeOf mem p ≠ 0 ∨ (param mem p 50).toNat ≤ 15 :=
  Preparer.contained_iff.trans (cownStores_elem_lt rowAddr)

end

/-! ## Calls on a log -/

section

variable {κ : Type} {sc : Scale} {log : Log} {mem mem' : List UInt8}

/-- `Table::get_row_addr` of the table that a row is in. -/
def getRow (sc : Scale) (map : Cown → κ) (c : Cown) : Option κ :=
  if c.2 < tsize sc c.1 then some (map c) else none

/-- The records lie in the buffer and are valid. -/
structure WellFormed (sc : Scale) (log : Log) (mem : List UInt8) : Prop where
  recordSize : log.recordSize = size
  fits : ∀ k < log.readCount, log.record k + size ≤ mem.length
  valid : ∀ k < log.readCount, (read mem (log.record k)).Valid sc

/-- A log of generated transactions is well formed. -/
theorem genLog_wellFormed {sp : GenLog.ScaleParameters} {now : Nat}
    {txns : List (Nat × GenLog.Params)} (hw : sp.warehouses ≤ sc.numWarehouses.toNat)
    (hfits : ∀ t ∈ txns, t.2.Fits t.1)
    (htxns : ∀ t ∈ txns, t.1 = 0 ∧ t.2.NewOrder sp now ∨ t.1 = 1 ∧ t.2.Payment sp now)
    {file : List UInt8} (hfile : GenLog.genLog txns = some file) :
    WellFormed sc (GenLog.log file) file := by
  obtain ⟨hcount, hlen, hrecords⟩ := GenLog.genLog_records hfits hfile
  refine ⟨rfl, fun k hk => ?_, fun k hk => ?_⟩
  · rw [hcount] at hk
    have hrecord : (GenLog.log file).record k = 4 + k * 576 := rfl
    have hsize : size = 576 := rfl
    omega
  · rw [hcount] at hk
    obtain ⟨hconsumed, -⟩ := hrecords k hk
    rcases htxns _ (List.getElem_mem hk) with ⟨ht, horder⟩ | ⟨ht, hpaid⟩
    · rw [ht] at hconsumed
      exact (horder.valid hconsumed hw).1
    · rw [ht] at hconsumed
      exact hpaid.valid hconsumed hw

/-- The buffer after calls of `prepare_cowns` on the records `ks`. -/
structure PointersAgree (sc : Scale) (rt : CownAddrs κ) (map : Cown → κ) (log : Log)
    (ks : List Nat) (mem mem' : List UInt8) : Prop where
  fields : ∀ k < log.readCount, read mem' (log.record k) = read mem (log.record k)
  others : ∀ k < log.readCount, k ∉ ks →
    SameOn (Set.Ico (log.record k) (log.record k + size)) mem mem'
  rest : SameOn { i | ∀ k ∈ ks, i ∉ Set.Ico (log.record k + 261) (log.record k + 525) } mem mem'
  taken : ∀ k ∈ ks, PointTo rt (getRow sc map) (takenPtrs mem' (log.record k))
    (read mem (log.record k)).prepareCowns

theorem read_congr_keys {p : Nat} (h : SameOn (Set.Ico p (p + 261)) mem mem') :
    read mem' p = read mem p := by
  obtain ⟨htype, hparam⟩ := read_of_keys h
  have hparams : (read mem' p).params = (read mem p).params := by
    ext j hj
    rw [read_param mem' p hj, read_param mem p hj, hparam j hj]
  rw [read, read, mk.injEq]
  exact ⟨htype, hparams⟩

/-- **Calls of `prepare_cowns`, in any order and any number of them.** -/
theorem WellFormed.prepareAll (h : WellFormed sc log mem) (rt : CownAddrs κ) (map : Cown → κ)
    (stray : Cown → UInt64) {ks : List Nat} (hks : ∀ k ∈ ks, k < log.readCount) :
    PointersAgree sc rt map log ks mem
      ((preparer (lookupAddr rt (getRow sc map) stray)).prepareAll log ks mem) := by
  have hprep := Preparer.prepared (P := preparer (lookupAddr rt (getRow sc map) stray)) h.recordSize
    ks fun k hk => (h.valid k (hks k hk)).fit _ (h.fits k (hks k hk))
  constructor
  · intro k _
    exact read_congr_keys (hprep.keys h.recordSize k)
  · intro k _ hk
    exact hprep.others h.recordSize hk
  · exact hprep.rest
  · intro k hk
    have hkeys := hprep.keys h.recordSize k
    have hvalid := h.valid k (hks k hk)
    have hvalid' := hvalid
    rw [← read_congr_keys hkeys] at hvalid'
    rw [takenPtrs_eq (lookupAddr rt (getRow sc map) stray) hvalid'.count_toNat,
      Preparer.stores_congr _ hkeys, hprep.map_cownPtr hk,
      cownStores_addr _ fun ht => (hvalid.count ht).2]
    apply pointTo_lookupAddr
    intro c hc
    rw [getRow, if_pos (hvalid.inside c hc)]
    rfl

end

end Doradd.Tpcc.TPCCTransactionMarshalled
