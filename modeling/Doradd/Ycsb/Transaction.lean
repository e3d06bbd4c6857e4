import Mathlib.Logic.Function.Basic
import Mathlib.Data.Set.Basic
import Mathlib.Algebra.Ring.Nat

/-!
# A YCSB transaction

The rows are the payloads behind the ten million cowns of the index.  A
transaction names ten of them and a write set; its body goes through the rows in
order, and either overwrites the head of a payload with the running sum or adds
the payload to the sum.
-/

namespace Doradd.Ycsb

/-! ## ycsb/constants.hpp -/

def rowsPerTx : Nat := 10
def rowSize : Nat := 900
def writeSize : Nat := 100
def dbSize : Nat := 10000000

/-! ## Rows -/

structure YCSBRow where
  payload : Vector Int8 rowSize

/-- The rows of the index, by position; only those below `DB_SIZE` are named. -/
abbrev Rows : Type := Nat → YCSBRow

/-- `memset(payload, c, WRITE_SIZE)` -/
def memset (payload : Vector Int8 rowSize) (c : UInt8) : Vector Int8 rowSize :=
  Vector.ofFn fun j => if j.val < writeSize then c.toInt8 else payload[j]

/-- `sum += payload[j]` for every `j`, a sum of bytes modulo 256. -/
def addPayload (sum : UInt8) (payload : Vector Int8 rowSize) : UInt8 :=
  payload.foldl (fun sum c => sum + c.toUInt8) sum

/-! ## The body -/

/-- A record of the log that names ten distinct rows of the index. -/
structure YCSBTransaction where
  indices : Vector UInt32 rowsPerTx
  writeSet : UInt16
  distinct : indices.toList.Nodup
  below : ∀ i ∈ indices.toList, i.toNat < dbSize

/-- Positions of the rows that the transaction acquires, in order. -/
def YCSBTransaction.rows (tx : YCSBTransaction) : List Nat :=
  tx.indices.toList.map UInt32.toNat

/-- The rows and the local variables of a body. -/
structure Body where
  rows : Rows
  sum : UInt8
  writeSetL : UInt16

/-- `TXN(_INDEX)` on the acquired row `i`. -/
def txn (s : Body) (i : Nat) : Body :=
  if s.writeSetL &&& 1 ≠ 0 then
    { s with
      rows := Function.update s.rows i ⟨memset (s.rows i).payload s.sum⟩
      writeSetL := s.writeSetL >>> 1 }
  else
    { s with
      sum := addPayload s.sum (s.rows i).payload
      writeSetL := s.writeSetL >>> 1 }

/-- The body of the `when` in `parse_and_process`. -/
def YCSBTransaction.execute (tx : YCSBTransaction) (rows : Rows) : Rows :=
  (tx.rows.foldl txn ⟨rows, 0, tx.writeSet⟩).rows

/-! ## What a body touches -/

theorem txn_frame (s : Body) {i j : Nat} (h : j ≠ i) : (txn s i).rows j = s.rows j := by
  unfold txn
  split
  · exact Function.update_of_ne h _ _
  · rfl

/-- Rows that are not acquired are left alone. -/
theorem foldl_txn_frame (is : List Nat) (s : Body) {j : Nat} (h : j ∉ is) :
    (is.foldl txn s).rows j = s.rows j := by
  induction is generalizing s with
  | nil => rfl
  | cons i is ih =>
    rw [List.mem_cons, not_or] at h
    rw [List.foldl_cons, ih (txn s i) h.2, txn_frame s h.1]

/-- The same locals and the same rows of `K`. -/
structure Body.Agree (K : Set Nat) (s s' : Body) : Prop where
  rows : ∀ j ∈ K, s.rows j = s'.rows j
  sum : s.sum = s'.sum
  writeSetL : s.writeSetL = s'.writeSetL

theorem Body.Agree.txn {K : Set Nat} {s s' : Body} (h : s.Agree K s') {i : Nat} (hi : i ∈ K) :
    (txn s i).Agree K (Ycsb.txn s' i) := by
  unfold Ycsb.txn
  rw [h.writeSetL, h.sum, h.rows i hi]
  split
  · refine ⟨fun j hj => ?_, rfl, rfl⟩
    simp only
    by_cases hji : j = i
    · rw [hji, Function.update_self, Function.update_self]
    · rw [Function.update_of_ne hji, Function.update_of_ne hji, h.rows j hj]
  · exact ⟨h.rows, rfl, rfl⟩

/-- What a body does depends on the rows it acquires only. -/
theorem Body.Agree.foldl_txn {K : Set Nat} {s s' : Body} (h : s.Agree K s') (is : List Nat)
    (hK : ∀ i ∈ is, i ∈ K) : (is.foldl Ycsb.txn s).Agree K (is.foldl Ycsb.txn s') := by
  induction is generalizing s s' with
  | nil => exact h
  | cons i is ih =>
    exact ih (h.txn (hK i List.mem_cons_self)) fun j hj => hK j (List.mem_cons_of_mem i hj)

end Doradd.Ycsb
