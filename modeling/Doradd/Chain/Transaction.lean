import Doradd.Chain.Prepare
import Doradd.Dispatcher.FrontEnd
import Doradd.Dispatcher.LogFile

/-!
# Chain transactions

One template serves four types of transactions, which differ in the layout of their records
and in the tables that their rows come from.  A record of type `Mixed` says itself how many
rows it names.

* `stores_eq`: `prepare_cowns` looks up the rows that the record names;
* `resolves`: once that is done, `parse_and_process` spawns one body on these rows, or
  nothing if a `Mixed` record names none.
-/

namespace Doradd.Chain

open Lib

/-! ## chain/constants.hpp -/

/-- What `ChainTransaction` is instantiated with. -/
inductive TxnType
  | mixed
  | nft
  | p2p
  | dex
  deriving DecidableEq

def numAccounts : Nat := 289023

namespace TxnType

def numCown : TxnType → Nat
  | .mixed => Mixed.numCown
  | .nft => 2
  | .p2p => 2
  | .dex => 1

def numResrcCown : TxnType → Nat
  | .mixed => 38
  | .nft => 1
  | .p2p => 0
  | .dex => 1

def numResrc : TxnType → Nat
  | .mixed => 41640
  | .nft => 844
  | .p2p => 0
  | .dex => 330

def marshalledSize : TxnType → Nat
  | .mixed => Mixed.marshalledSize
  | _ => 64

/-- Where `params` begins in the packed struct. -/
def paramsAt : TxnType → Nat
  | .mixed => 5
  | _ => 0

/-- Where `cown_ptrs` begins, right behind it. -/
def ptrsAt (T : TxnType) : Nat := T.paramsAt + 4 * T.numCown

theorem ptrs_fit (T : TxnType) : T.ptrsAt + 8 * T.numCown ≤ T.marshalledSize := by
  cases T <;> decide

theorem marshalledSize_pos (T : TxnType) : 0 < T.marshalledSize := by cases T <;> decide

section

variable (T : TxnType)

/-- `txm->params[i]` -/
def param (mem : List UInt8) (p i : Nat) : UInt32 :=
  UInt32.ofNat (field mem (p + (T.paramsAt + 4 * i)) 4)

/-- `txm->cown_ptrs[i]` -/
def cownPtr (mem : List UInt8) (p i : Nat) : UInt64 :=
  UInt64.ofNat (field mem (p + (T.ptrsAt + 8 * i)) 8)

end

/-- `txm->gas` of a `Mixed` record. -/
def gas (mem : List UInt8) (p : Nat) : UInt32 := UInt32.ofNat (field mem (p + 1) 4)

end TxnType

/-! ## chain/tables.hpp -/

inductive TableId
  | resource
  | user
  deriving DecidableEq

/-- `DB_SIZE` of a table. -/
def TxnType.dbSize (T : TxnType) : TableId → Nat
  | .resource => T.numResrc
  | .user => numAccounts

/-- The rows that there are. -/
abbrev Row (T : TxnType) : Type := { a : TableId × UInt64 // a.2.toNat < T.dbSize a.1 }

/-- `get_row_addr`; past the end of the array there is no row. -/
def getRow (T : TxnType) (a : TableId × UInt64) : Option (Row T) :=
  if h : a.2.toNat < T.dbSize a.1 then some ⟨a, h⟩ else none

theorem getRow_of_lt {T : TxnType} {a : TableId × UInt64} (h : a.2.toNat < T.dbSize a.1) :
    getRow T a = some ⟨a, h⟩ := dif_pos h

/-! ## chain.cc -/

section

variable (T : TxnType)

/-- The stores of `prepare_cowns` for the types with a fixed number of cowns. -/
def cownStores (rowAddr : TableId × UInt64 → UInt64) (p : Nat) : List PtrStore :=
  (List.range T.numResrcCown).map (fun i =>
      ⟨i, fun mem => rowAddr (.resource, (T.param mem p i - 1).toUInt64)⟩) ++
    (List.range' T.numResrcCown (T.numCown - T.numResrcCown)).map fun j =>
      ⟨j, fun mem => rowAddr (.user, (T.param mem p j - 1).toUInt64)⟩

/-- `prepare_cowns` -/
def preparer (rowAddr : TableId × UInt64 → UInt64) : Preparer :=
  match T with
  | .mixed => Mixed.preparer fun key => rowAddr (.resource, key)
  | T =>
    { recordSize := T.marshalledSize
      ptrs := T.ptrsAt
      len := T.numCown
      ptrs_fit := T.ptrs_fit
      stores := fun _ p => cownStores T rowAddr p
      stores_congr := fun _ => rfl }

end

/-- A `when`: its rows, and how long its body spins, in nanoseconds. -/
structure When (T : TxnType) where
  rows : List (Row T)
  servTime : Nat

instance {T : TxnType} : Inhabited (When T) := ⟨⟨[], 0⟩⟩

def When.Conflict {T : TxnType} (w w' : When T) : Prop := ∃ a ∈ w.rows, a ∈ w'.rows

instance {T : TxnType} : DecidableRel (@When.Conflict T) := fun w w' =>
  inferInstanceAs (Decidable (∃ a ∈ w.rows, a ∈ w'.rows))

/-- The `when` of a record, if there is one: how many of its pointers it turns into cowns,
and how long its body spins.  The product with the gas is taken in 32 bits. -/
def whenOf (T : TxnType) (mem : List UInt8) (p : Nat) : Option (Nat × Nat) :=
  match T with
  | .mixed =>
    let numWrites := (Mixed.numWrites mem p).toNat
    if 1 ≤ numWrites ∧ numWrites ≤ 38 then
      some (numWrites, 146000 + (12000 * TxnType.gas mem p).toNat)
    else none
  | .nft => some (2, 240000)
  | .p2p => some (2, 334000)
  | .dex => some (1, 240000)

/-- `parse_and_process`, with the behaviours that it spawns. -/
def parseAndProcess {T : TxnType} (rt : CownAddrs (Row T)) (mem : List UInt8) (p : Nat) :
    List (When T) :=
  (whenOf T mem p).toList.map fun w =>
    ⟨(List.range w.1).map fun i => rt.getCownPtrFromAddr (T.cownPtr mem p i), w.2⟩

/-- `prepare_cowns` and `parse_and_process`, where a row is its own cown. -/
def app {T : TxnType} (rt : CownAddrs (Row T)) (stray : TableId × UInt64 → UInt64) :
    App (When T) where
  prepareCowns := (preparer T (lookupAddr rt (getRow T) stray)).prepare
  parseAndProcess := parseAndProcess rt

/-! ## The rows that a record names -/

section

variable (T : TxnType) (mem : List UInt8) (p : Nat)

/-- How many pointers `prepare_cowns` writes. -/
def taken : Nat :=
  match T with
  | .mixed => (Mixed.numWrites mem p).toNat
  | T => T.numCown

def table (i : Nat) : TableId := if i < T.numResrcCown then .resource else .user

def key (i : Nat) : TableId × UInt64 := (table T i, (T.param mem p i - 1).toUInt64)

def named : List (Row T) := ((List.range (taken T mem p)).map (key T mem p)).filterMap (getRow T)

/-- What the record spawns, as far as it was written by the client. -/
def spawns : List (When T) := (whenOf T mem p).toList.map fun w => ⟨named T mem p, w.2⟩

end

/-- The records lie in the mapped file, and they name rows that there are. -/
structure WellFormed (T : TxnType) (log : Log) (mem : List UInt8) : Prop where
  recordSize : log.recordSize = T.marshalledSize
  fits : ∀ k < log.readCount, log.record k + T.marshalledSize ≤ mem.length
  counts : ∀ k < log.readCount, taken T mem (log.record k) ≤ T.numCown
  below : ∀ k < log.readCount, ∀ i < taken T mem (log.record k),
    (key T mem (log.record k) i).2.toNat < T.dbSize (key T mem (log.record k) i).1

section

variable {T : TxnType} {mem mem' : List UInt8} {p : Nat}
  (rowAddr : TableId × UInt64 → UInt64)

theorem recordSize_preparer : (preparer T rowAddr).recordSize = T.marshalledSize := by
  cases T <;> rfl

theorem len_preparer : (preparer T rowAddr).len = T.numCown := by cases T <;> rfl

theorem ptrs_preparer : (preparer T rowAddr).ptrs = T.ptrsAt := by cases T <;> rfl

theorem cownPtr_preparer (i : Nat) : (preparer T rowAddr).cownPtr mem p i = T.cownPtr mem p i := by
  rw [Preparer.cownPtr, Preparer.elemAt, ptrs_preparer]
  rfl

/-- **The rows are looked up that the record names.** -/
theorem stores_eq (h : taken T mem p ≤ T.numCown) :
    (preparer T rowAddr).stores mem p = (List.range (taken T mem p)).map fun i =>
      ⟨i, fun mem => rowAddr (key T mem p i)⟩ := by
  cases T with
  | mixed =>
    refine List.map_congr_left fun i hi => ?_
    have hlt : i < TxnType.mixed.numResrcCown := Nat.lt_of_lt_of_le (List.mem_range.mp hi) h
    simp only [key, table, if_pos hlt]
    rfl
  | nft => rfl
  | p2p => rfl
  | dex => rfl

/-! ## What is left alone -/

theorem field_congr (hs : SameOn ((preparer T rowAddr).keyBytes p) mem mem') {o n : Nat}
    (h : o + n ≤ T.ptrsAt) : field mem' (p + o) n = field mem (p + o) n := by
  refine SameOn.field (hs.mono ?_)
  rw [Preparer.keyBytes, ptrs_preparer]
  exact Set.Ico_subset_Ico (by omega) (by omega)

theorem key_congr (hs : SameOn ((preparer T rowAddr).keyBytes p) mem mem') {i : Nat}
    (hi : i < T.numCown) : key T mem' p i = key T mem p i := by
  rw [key, key, TxnType.param, TxnType.param, field_congr rowAddr hs]
  rw [TxnType.ptrsAt]
  omega

theorem whenOf_congr (hs : SameOn ((preparer T rowAddr).keyBytes p) mem mem') :
    whenOf T mem' p = whenOf T mem p := by
  cases T with
  | mixed =>
    rw [whenOf, whenOf, Mixed.numWrites, Mixed.numWrites, TxnType.gas, TxnType.gas,
      field_congr rowAddr hs (by decide), field_congr rowAddr hs (by decide)]
  | nft => rfl
  | p2p => rfl
  | dex => rfl

/-- A `when` is given all the pointers that were written. -/
theorem whenOf_taken {w : Nat × Nat} (h : w ∈ whenOf T mem p) : w.1 = taken T mem p := by
  cases T with
  | mixed =>
    simp only [whenOf, Option.mem_def, Option.ite_none_right_eq_some, Option.some.injEq] at h
    rw [← h.2]
    rfl
  | nft => rw [← Option.some.inj h]; rfl
  | p2p => rw [← Option.some.inj h]; rfl
  | dex => rw [← Option.some.inj h]; rfl

/-- Nothing is spawned for a record that names nothing. -/
theorem whenOf_isSome_iff (h : taken T mem p ≤ T.numCown) :
    (whenOf T mem p).isSome ↔ 0 < taken T mem p := by
  cases T with
  | mixed =>
    show (if 1 ≤ (Mixed.numWrites mem p).toNat ∧ (Mixed.numWrites mem p).toNat ≤ 38 then
      some _ else none).isSome ↔ 0 < (Mixed.numWrites mem p).toNat
    by_cases hpos : 0 < (Mixed.numWrites mem p).toNat
    · rw [if_pos ⟨hpos, h⟩]
      exact iff_of_true rfl hpos
    · rw [if_neg fun hn => hpos hn.1]
      exact iff_of_false Bool.false_ne_true hpos
  | nft => exact iff_of_true rfl (Nat.zero_lt_succ 1)
  | p2p => exact iff_of_true rfl (Nat.zero_lt_succ 1)
  | dex => exact iff_of_true rfl (Nat.zero_lt_succ 0)

end

/-! ## Calls on the records of a log -/

section

variable {T : TxnType} {log : Log} {mem : List UInt8} (h : WellFormed T log mem)
  (rt : CownAddrs (Row T)) (stray : TableId × UInt64 → UInt64)
include h

theorem WellFormed.fit (rowAddr : TableId × UInt64 → UInt64) {k : Nat} (hk : k < log.readCount) :
    (preparer T rowAddr).Fit mem (log.record k) := by
  have hcount := h.counts k hk
  have hstores := stores_eq rowAddr hcount
  constructor
  · rw [recordSize_preparer]
    exact h.fits k hk
  · intro s hs mem₁ mem₂ hsame
    rw [hstores] at hs
    obtain ⟨i, hi, rfl⟩ := List.mem_map.mp hs
    have hlt : i < T.numCown := Nat.lt_of_lt_of_le (List.mem_range.mp hi) hcount
    exact congrArg rowAddr (key_congr rowAddr hsame hlt)
  · intro s hs
    rw [hstores] at hs
    obtain ⟨i, hi, rfl⟩ := List.mem_map.mp hs
    rw [len_preparer]
    exact Nat.lt_of_lt_of_le (List.mem_range.mp hi) hcount
  · rw [hstores, List.map_map]
    exact (List.map_id _).symm ▸ List.nodup_range

/-- The log after calls on the records `ks`. -/
theorem WellFormed.prepared {ks : List Nat} (hks : ∀ k ∈ ks, k < log.readCount) :
    (preparer T (lookupAddr rt (getRow T) stray)).Prepared log ks mem
      (System.prepareAll (app rt stray) log ks mem) :=
  Preparer.prepared (h.recordSize.trans (recordSize_preparer _).symm) ks
    fun k hk => h.fit _ (hks k hk)

/-- The pointers of a prepared record lead to the rows that it names. -/
theorem WellFormed.rows_eq {ks : List Nat} (hks : ∀ k ∈ ks, k < log.readCount) {k : Nat}
    (hk : k ∈ ks) : ((List.range (taken T mem (log.record k))).map fun i =>
      rt.getCownPtrFromAddr (T.cownPtr (System.prepareAll (app rt stray) log ks mem)
        (log.record k) i)) = named T mem (log.record k) := by
  have hcount := h.counts k (hks k hk)
  have hptrs := (h.prepared rt stray hks).map_cownPtr hk
  rw [stores_eq _ hcount, List.map_map, List.map_map] at hptrs
  have hrow : ∀ i ∈ List.range (taken T mem (log.record k)),
      (getRow T ∘ key T mem (log.record k)) i = some (rt.getCownPtrFromAddr
        (T.cownPtr (System.prepareAll (app rt stray) log ks mem) (log.record k) i)) := by
    intro i hi
    have hptr := List.map_inj_left.mp hptrs i hi
    have hsome := getRow_of_lt (h.below k (hks k hk) i (List.mem_range.mp hi))
    rw [← cownPtr_preparer (lookupAddr rt (getRow T) stray)]
    refine hsome.trans (congrArg some ?_)
    refine Eq.trans ?_ (congrArg rt.getCownPtrFromAddr hptr.symm)
    show _ = rt.getCownPtrFromAddr (lookupAddr rt (getRow T) stray _)
    rw [lookupAddr, hsome, rt.from_base]
  rw [named, List.filterMap_map, List.filterMap_congr hrow]
  exact (congrFun List.filterMap_eq_map' _).symm

/-- **A record spawns one body on the rows that it names**, once its pointers are
resolved. -/
theorem WellFormed.resolves : System.Resolves (app rt stray) log mem
    fun k => spawns T mem (log.record k) := by
  intro ks hks k hk
  have hkeys := (h.prepared rt stray hks).keys
    (h.recordSize.trans (recordSize_preparer _).symm) k
  have hwhen : whenOf T (System.prepareAll (app rt stray) log ks mem) (log.record k) =
      whenOf T mem (log.record k) := whenOf_congr _ hkeys
  show parseAndProcess rt _ _ = spawns T mem _
  rw [parseAndProcess, hwhen, spawns]
  refine List.map_congr_left fun w hw => ?_
  rw [whenOf_taken (Option.mem_toList.mp hw), h.rows_eq rt stray hks hk]

end

end Doradd.Chain
