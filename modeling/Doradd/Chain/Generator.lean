import Mathlib.Logic.Function.Basic
import Doradd.Lib.Checked
import Doradd.Lib.Layout
import Doradd.Chain.Transaction

/-!
# Where the rows of a chain are placed

`main` makes one allocation for the resources and the users.  The generator makes every row
at an address that it computes from its key, and inserts it.

* `generateRows_ok`: no insertion fails, and the table is full afterwards;
* `generate_places`: lookups find a row for every key below the size of its table; each of
  these rows has a kilobyte of the allocation to itself.
-/

namespace Doradd.Chain

open Lib

/-! ## chain/tables.hpp -/

/-- The addresses at which the cowns of a table were made, and how often a row was
inserted. -/
structure Table where
  map : UInt64 → Option UInt64
  cnt : Nat

namespace Table

inductive Fault
  | indexIsFull
  | outOfBounds
  deriving DecidableEq

def empty : Table := ⟨fun _ => none, 0⟩

def put (key row : UInt64) (t : Table) : Table :=
  ⟨Function.update t.map key (some row), t.cnt + 1⟩

/-- `insert_row` of a table with room for `size` rows. -/
def insertRow (size : Nat) (key row : UInt64) (t : Table) : Except Fault Table :=
  if t.cnt < size then
    if key.toNat < size then .ok (t.put key row)
    else .error .outOfBounds
  else .error .indexIsFull

end Table

/-! ## chain.cc -/

section

variable (T : TxnType) (base : UInt64)

/-- The size that `main` allocates. -/
def allocSize : UInt64 := 1024 * (UInt64.ofNat T.numResrc + UInt64.ofNat numAccounts)

def chainArrAddrResource : UInt64 := base

def chainArrAddrUser : UInt64 := chainArrAddrResource base + 1024 * UInt64.ofNat T.numResrc

def tableAddr : TableId → UInt64
  | .resource => chainArrAddrResource base
  | .user => chainArrAddrUser T base

/-! ## chain/generator.hpp -/

/-- A round of the generator's loops, which count their rows from 1. -/
def generateRow (num : Nat) (tableAddr : UInt64) (t : Table) (id : Nat) :
    Except Table.Fault Table :=
  let hashKey := UInt64.ofNat id - 1
  t.insertRow num hashKey (tableAddr + 1024 * hashKey)

def generateRows (num : Nat) (tableAddr : UInt64) (t : Table) : Except Table.Fault Table :=
  (List.range' 1 num).foldlM (generateRow num tableAddr) t

def generateResources : Table → Except Table.Fault Table :=
  generateRows T.numResrc (tableAddr T base .resource)

def generateUsers : Table → Except Table.Fault Table :=
  generateRows numAccounts (tableAddr T base .user)

/-- The tables of the database, after both have been generated. -/
def generate : Except Table.Fault (TableId → Table) := do
  let resourceTable ← generateResources T base .empty
  let userTable ← generateUsers T base .empty
  return fun
    | .resource => resourceTable
    | .user => userTable

/-- Where a row is made. -/
def rowAddr (a : TableId × UInt64) : UInt64 := tableAddr T base a.1 + 1024 * a.2

/-- The bytes that are reserved for a row. -/
def rowBytes (r : Row T) : Set Nat :=
  Set.Ico (rowAddr T base r.val).toNat ((rowAddr T base r.val).toNat + 1024)

end

/-! ## Insertions -/

/-- The table once the first `n` rows were inserted. -/
structure Inserted (tableAddr : UInt64) (n : Nat) (t : Table) : Prop where
  cnt : t.cnt = n
  map : ∀ key : UInt64, t.map key = if key.toNat < n then some (tableAddr + 1024 * key) else none

theorem Inserted.insert {tableAddr : UInt64} {n : Nat} {t : Table} (h : Inserted tableAddr n t)
    {num : Nat} (hn : n < num) (hnum : num < 2 ^ 64) :
    ∃ u, t.insertRow num (UInt64.ofNat n) (tableAddr + 1024 * UInt64.ofNat n) = .ok u ∧
      Inserted tableAddr (n + 1) u := by
  have hkey : (UInt64.ofNat n).toNat = n :=
    UInt64.toNat_ofNat_of_lt' (Nat.lt_trans hn hnum)
  refine ⟨t.put (UInt64.ofNat n) (tableAddr + 1024 * UInt64.ofNat n), ?_,
    ⟨congrArg (· + 1) h.cnt, fun key => ?_⟩⟩
  · rw [Table.insertRow, if_pos (h.cnt.trans_lt hn), if_pos (hkey.trans_lt hn)]
  · by_cases heq : key = UInt64.ofNat n
    · subst heq
      rw [hkey, if_pos (Nat.lt_succ_self n)]
      exact Function.update_self _ _ _
    · have hne : key.toNat ≠ n := by
        rintro rfl
        exact heq UInt64.ofNat_toNat.symm
      have hlt : key.toNat < n ↔ key.toNat < n + 1 := by omega
      refine (Function.update_of_ne heq _ _).trans ((h.map key).trans ?_)
      simp only [hlt]

theorem Inserted.generateRow {tableAddr : UInt64} {id : Nat} {t : Table}
    (h : Inserted tableAddr (id - 1) t) (hid : 1 ≤ id) {num : Nat} (hn : id ≤ num)
    (hnum : num < 2 ^ 64) :
    ∃ u, generateRow num tableAddr t id = .ok u ∧ Inserted tableAddr (id + 1 - 1) u := by
  have hkey : UInt64.ofNat id - 1 = UInt64.ofNat (id - 1) := by
    rw [UInt64.ofNat_sub hid]
    rfl
  obtain ⟨u, hu, hins⟩ := h.insert (by omega) hnum
  rw [Nat.sub_add_cancel hid, ← Nat.add_sub_cancel id 1] at hins
  refine ⟨u, ?_, hins⟩
  rw [Chain.generateRow, hkey]
  exact hu

/-- **No insertion fails**, and the table is full afterwards. -/
theorem generateRows_ok (num : Nat) (hnum : num < 2 ^ 64) (tableAddr : UInt64) :
    ∃ t, generateRows num tableAddr .empty = .ok t ∧ Inserted tableAddr num t := by
  have hinit : Inserted tableAddr (1 - 1) Table.empty := by
    refine ⟨rfl, fun key => ?_⟩
    rw [if_neg (Nat.not_lt_zero _)]
    rfl
  obtain ⟨t, ht, hins⟩ := foldlM_range'_inv (fun id => Inserted tableAddr (id - 1)) 1 num
    (fun id hid hid' t ht => ht.generateRow hid (by omega) hnum) hinit
  rw [Nat.add_sub_cancel_left] at hins
  exact ⟨t, ht, hins⟩

/-! ## Rows -/

namespace TxnType

variable (T : TxnType)

/-- The number of a row in the allocation: the users follow the resources. -/
def slotOf : TableId × UInt64 → Nat
  | (.resource, key) => key.toNat
  | (.user, key) => T.numResrc + key.toNat

variable {T}

theorem numResrc_le (T : TxnType) : T.numResrc ≤ 41640 := by cases T <;> decide

theorem slotOf_lt (r : Row T) : T.slotOf r.val < T.numResrc + numAccounts := by
  obtain ⟨⟨t, key⟩, hr⟩ := r
  cases t with
  | resource => exact Nat.lt_add_right _ hr
  | user => exact Nat.add_lt_add_left hr _

theorem slotOf_inj {r r' : Row T} (h : T.slotOf r.val = T.slotOf r'.val) : r = r' := by
  obtain ⟨⟨t, key⟩, hr⟩ := r
  obtain ⟨⟨t', key'⟩, hr'⟩ := r'
  cases t with
  | resource =>
    have hlt : key.toNat < T.numResrc := hr
    cases t' with
    | resource => exact Subtype.ext (Prod.ext rfl (UInt64.toNat_inj.mp h))
    | user =>
      simp only [slotOf] at h
      omega
  | user =>
    cases t' with
    | resource =>
      have hlt : key'.toNat < T.numResrc := hr'
      simp only [slotOf] at h
      omega
    | user => exact Subtype.ext (Prod.ext rfl (UInt64.toNat_inj.mp (Nat.add_left_cancel h)))

end TxnType

section

variable {T : TxnType} {base : UInt64}

theorem allocSize_toNat (T : TxnType) :
    (allocSize T).toNat = 1024 * (T.numResrc + numAccounts) := by cases T <;> decide

theorem rowAddr_toNat (h : base.toNat + (allocSize T).toNat ≤ 2 ^ 64) (r : Row T) :
    (rowAddr T base r.val).toNat = base.toNat + 1024 * T.slotOf r.val := by
  have hslot := TxnType.slotOf_lt r
  have hle := T.numResrc_le
  rw [allocSize_toNat] at h
  obtain ⟨⟨t, key⟩, hr⟩ := r
  have hbig : numAccounts = 289023 := rfl
  have hnum : (UInt64.ofNat T.numResrc).toNat = T.numResrc :=
    UInt64.toNat_ofNat_of_lt' (by simp only [UInt64.size]; omega)
  cases t with
  | resource =>
    simp only [TxnType.slotOf] at hslot ⊢
    simp only [rowAddr, tableAddr, chainArrAddrResource, UInt64.toNat_add, UInt64.toNat_mul,
      UInt64.reduceToNat]
    omega
  | user =>
    simp only [TxnType.slotOf] at hslot ⊢
    simp only [rowAddr, tableAddr, chainArrAddrResource, chainArrAddrUser, UInt64.toNat_add,
      UInt64.toNat_mul, UInt64.reduceToNat, hnum]
    omega

theorem rowBytes_eq (h : base.toNat + (allocSize T).toNat ≤ 2 ^ 64) (r : Row T) :
    rowBytes T base r = slot base.toNat 1024 (T.slotOf r.val) := by
  rw [rowBytes, rowAddr_toNat h, slot]

/-- **Every row has a place of its own.**  If the allocation lies in the address space, the
tables are generated; lookups in them find the rows of the keys below their sizes, and no
others; and these rows lie apart in the allocation. -/
theorem generate_places (T : TxnType) (base : UInt64)
    (h : base.toNat + (allocSize T).toNat ≤ 2 ^ 64) :
    ∃ tables, generate T base = .ok tables ∧
      (∀ t, (tables t).cnt = T.dbSize t) ∧
      (∀ a, (tables a.1).map a.2 = (getRow T a).map fun r => rowAddr T base r.val) ∧
      (∀ r : Row T, rowBytes T base r ⊆
        Set.Ico base.toNat (base.toNat + (allocSize T).toNat)) ∧
      ∀ r r' : Row T, r ≠ r' → Disjoint (rowBytes T base r) (rowBytes T base r') := by
  have hle := T.numResrc_le
  obtain ⟨tr, htr, hr⟩ := generateRows_ok T.numResrc (by omega) (tableAddr T base .resource)
  obtain ⟨tu, htu, hu⟩ := generateRows_ok numAccounts (by decide) (tableAddr T base .user)
  have hlook : ∀ {t : TableId} {tab : Table}, Inserted (tableAddr T base t) (T.dbSize t) tab →
      ∀ key, tab.map key = (getRow T (t, key)).map fun r => rowAddr T base r.val := by
    intro t tab htab key
    rw [htab.map, getRow]
    by_cases hlt : key.toNat < T.dbSize t
    · rw [if_pos hlt, dif_pos hlt]
      rfl
    · rw [if_neg hlt, dif_neg hlt]
      rfl
  refine ⟨_, (bind_of_ok htr _).trans (bind_of_ok htu _), fun t => ?_, fun ⟨t, key⟩ => ?_,
    fun r => ?_, fun r r' hne => ?_⟩
  · cases t with
    | resource => exact hr.cnt
    | user => exact hu.cnt
  · cases t with
    | resource => exact hlook (t := .resource) hr key
    | user => exact hlook (t := .user) hu key
  · rw [rowBytes_eq h, allocSize_toNat]
    exact slot_subset _ _ (TxnType.slotOf_lt r)
  · rw [rowBytes_eq h, rowBytes_eq h]
    exact disjoint_slot _ _ fun heq => hne (TxnType.slotOf_inj heq)

end

theorem generate_places_page : ∃ tables, generate .p2p 2097152 = .ok tables ∧
    (tables .resource).cnt = 0 ∧ (tables .user).cnt = 289023 := by
  obtain ⟨tables, hgen, hcnt, -⟩ := generate_places .p2p 2097152 (by decide)
  exact ⟨tables, hgen, hcnt .resource, hcnt .user⟩

end Doradd.Chain
