import Doradd.Chain.Prepare
import Doradd.Tpcc.Prepare
import Doradd.Ycsb.Prepare

/-!
# Resolved pointers

* `pointers_agree`: after any calls of `prepare_cowns` on a log, the transactions take the
  rows that lookups of their keys give, and nothing else has changed;
* `contained_counts`: which malformed counts `prepare_cowns` survives.
-/

namespace Doradd

open Lib Tpcc Ycsb Chain

/-! ## Well-formed logs -/

/-- **Calls of `prepare_cowns` on the records of a log, in any order and any number of
them.** -/
theorem pointers_agree {κ : Type} (rt : CownAddrs κ) :
    (∀ (map : Fin dbSize → κ) (stray : UInt64 → UInt64) (log : Log) (mem : List UInt8)
      (ks : List Nat), YCSBTransactionMarshalled.WellFormed log mem →
        (∀ k ∈ ks, k < log.readCount) →
          YCSBTransactionMarshalled.PointersAgree rt map log ks mem
            ((YCSBTransactionMarshalled.preparer
              (lookupAddr rt (YCSBTransactionMarshalled.getRow map) stray)).prepareAll
                log ks mem)) ∧
    ∀ (sc : Scale) (map : Cown → κ) (stray : Cown → UInt64) (log : Log) (mem : List UInt8)
      (ks : List Nat), TPCCTransactionMarshalled.WellFormed sc log mem →
        (∀ k ∈ ks, k < log.readCount) →
          TPCCTransactionMarshalled.PointersAgree sc rt map log ks mem
            ((TPCCTransactionMarshalled.preparer
              (lookupAddr rt (TPCCTransactionMarshalled.getRow sc map) stray)).prepareAll
                log ks mem) :=
  ⟨fun map stray _ _ _ h hks => h.prepareAll rt map stray hks,
    fun _ map stray _ _ _ h hks => h.prepareAll rt map stray hks⟩

/-- A cown is known by its address. -/
def exampleAddrs : CownAddrs UInt64 := ⟨id, id, fun _ => rfl⟩

def exampleFile : List UInt8 := Ycsb.genLog [exampleTxn, exampleTxn]

theorem exampleFile_wellFormed :
    YCSBTransactionMarshalled.WellFormed (YCSBTransactionMarshalled.log exampleFile)
      exampleFile := by
  have hkeys : ∀ key ∈ exampleTxn.keys.toList, key.toNat < dbSize := by
    intro key hkey
    obtain ⟨i, rfl⟩ := Vector.mem_ofFn.mp (Vector.mem_toList_iff.mp hkey)
    have hi : i.val < 10 := i.isLt
    rw [UInt32.toNat_ofNat_of_lt' (by simp only [UInt32.size]; omega), dbSize]
    omega
  exact YCSBTransactionMarshalled.genLog_wellFormed (by simp)
    (List.forall_mem_cons.mpr ⟨hkeys, List.forall_mem_singleton.mpr hkeys⟩)

def exampleTxns : List (Nat × GenLog.Params) :=
  [(0, GenLog.exampleOrder), (1, GenLog.examplePaid)]

theorem exampleTxns_fits : ∀ t ∈ exampleTxns, t.2.Fits t.1 :=
  List.forall_mem_cons.mpr ⟨GenLog.exampleOrder_fits,
    List.forall_mem_singleton.mpr GenLog.examplePaid_fits⟩

theorem exampleTxns_wellFormed {file : List UInt8}
    (h : GenLog.genLog exampleTxns = some file) :
    TPCCTransactionMarshalled.WellFormed Scale.one (GenLog.log file) file := by
  have hw : GenLog.exampleScale.warehouses ≤ Scale.one.numWarehouses.toNat := by decide
  have horder : GenLog.exampleOrder.NewOrder GenLog.exampleScale 1700000000 :=
    GenLog.ensures_newOrder _ _ _ _ _ _ GenLog.exampleOrder_drawn
  have hpaid : GenLog.examplePaid.Payment GenLog.exampleScale 1700000000 :=
    GenLog.ensures_payment _ _ _ _ _ _ GenLog.examplePaid_drawn
  exact TPCCTransactionMarshalled.genLog_wellFormed hw exampleTxns_fits
    (List.forall_mem_cons.mpr ⟨Or.inl ⟨rfl, horder⟩,
      List.forall_mem_singleton.mpr (Or.inr ⟨rfl, hpaid⟩)⟩) h

/-- The second record, the first, and the second again. -/
theorem pointers_agree_thrice :
    YCSBTransactionMarshalled.PointersAgree exampleAddrs (fun i => UInt64.ofNat (1024 * i.val))
        (YCSBTransactionMarshalled.log exampleFile) [1, 0, 1] exampleFile
        ((YCSBTransactionMarshalled.preparer (lookupAddr exampleAddrs
          (YCSBTransactionMarshalled.getRow fun i => UInt64.ofNat (1024 * i.val))
            fun _ => 0)).prepareAll (YCSBTransactionMarshalled.log exampleFile) [1, 0, 1]
              exampleFile) ∧
      ∃ file, GenLog.genLog exampleTxns = some file ∧
        TPCCTransactionMarshalled.PointersAgree Scale.one exampleAddrs (fun c => 1024 * c.2)
          (GenLog.log file) [1, 0, 1] file
          ((TPCCTransactionMarshalled.preparer (lookupAddr exampleAddrs
            (TPCCTransactionMarshalled.getRow Scale.one fun c => 1024 * c.2)
              fun _ => 0)).prepareAll (GenLog.log file) [1, 0, 1] file) := by
  have hfile := (GenLog.genLog_eq_some exampleTxns_fits).mpr ⟨by decide, rfl⟩
  obtain ⟨hcount, -⟩ := GenLog.genLog_records exampleTxns_fits hfile
  refine ⟨(pointers_agree exampleAddrs).1 _ _ _ _ _ exampleFile_wellFormed (by decide), _, hfile,
    (pointers_agree exampleAddrs).2 _ _ _ _ _ _ (exampleTxns_wellFormed hfile) ?_⟩
  rw [hcount]
  decide

/-! ## Malformed counts -/

/-- **A call stays within the pointers of its record, in TPC-C if the record is no NewOrder
or has at most fifteen items, in a `Mixed` record if it has at most 38 writes.** -/
theorem contained_counts (tpccAddr : Cown → UInt64) (chainAddr : UInt64 → UInt64)
    (mem : List UInt8) (p : Nat) :
    ((TPCCTransactionMarshalled.preparer tpccAddr).Contained mem p ↔
      TPCCTransactionMarshalled.typeOf mem p ≠ 0 ∨
        (TPCCTransactionMarshalled.param mem p 50).toNat ≤ 15) ∧
    ((Mixed.preparer chainAddr).Contained mem p ↔ (Mixed.numWrites mem p).toNat ≤ 38) :=
  ⟨TPCCTransactionMarshalled.contained_iff tpccAddr, Mixed.contained_iff chainAddr⟩

/-- Two NewOrders, the first with a count of 22. -/
def exampleOverlong : List UInt8 := List.replicate 201 0 ++ 22 :: List.replicate 950 0

/-- A `Mixed` record with 39 writes. -/
def exampleMixed : List UInt8 := 39 :: List.replicate 511 0

/-- The last item of the first NewOrder is stored across the end of the record. -/
theorem counts_escape :
    ¬ (TPCCTransactionMarshalled.preparer fun _ => 0).Contained exampleOverlong 0 ∧
      (∃ s ∈ (TPCCTransactionMarshalled.preparer fun _ => 0).stores exampleOverlong 0,
        TPCCTransactionMarshalled.size <
          (TPCCTransactionMarshalled.preparer fun _ => 0).elemAt 0 s.elem + 8) ∧
      ¬ (Mixed.preparer fun _ => 0).Contained exampleMixed 0 := by
  refine ⟨?_, ⟨TPCCTransactionMarshalled.itemStore (fun _ => 0) 0 21, ?_, by decide⟩, ?_⟩
  · rw [TPCCTransactionMarshalled.contained_iff]
    decide
  · show _ ∈ TPCCTransactionMarshalled.cownStores (fun _ => 0) exampleOverlong 0
    exact TPCCTransactionMarshalled.itemStore_mem _ (by decide) (by decide)
  · rw [Mixed.contained_iff]
    decide

end Doradd
