import Doradd.Lib.Schedule
import Doradd.Lib.Footprint
import Doradd.Ycsb.Transaction

/-!
# Parallel execution of a YCSB log

The runtime runs the bodies in any order that keeps the log order of every two
transactions that share a row.

* `execute_localOn`: a body reads and writes its own ten rows only;
* `parallel_eq_serial`: every such order leaves the rows as the log itself does,
  run one transaction after the other.
-/

namespace Doradd.Ycsb

open Lib

/-- Two transactions share a row. -/
def Conflict (tx tx' : YCSBTransaction) : Prop := ∃ i ∈ tx.rows, i ∈ tx'.rows

instance (tx tx' : YCSBTransaction) : Decidable (Conflict tx tx') :=
  inferInstanceAs (Decidable (∃ i ∈ tx.rows, i ∈ tx'.rows))

/-- **Footprint of a body.** -/
theorem execute_localOn (tx : YCSBTransaction) :
    LocalOn (fun rows : Rows => rows) { i | i ∈ tx.rows } fun rows rows' =>
      tx.execute rows = rows' where
  frame := by
    rintro rows _ rfl i hi
    exact foldl_txn_frame tx.rows ⟨rows, 0, tx.writeSet⟩ hi
  reads := by
    rintro rows rows' _ _ rfl rfl he i hi
    have hstart : Body.Agree { i | i ∈ tx.rows } ⟨rows, 0, tx.writeSet⟩ ⟨rows', 0, tx.writeSet⟩ :=
      ⟨he, rfl, rfl⟩
    exact (hstart.foldl_txn tx.rows fun _ h => h).rows i hi

/-- Bodies that share no row commute. -/
theorem execute_comm {tx tx' : YCSBTransaction} (h : ¬ Conflict tx tx') (rows : Rows) :
    tx'.execute (tx.execute rows) = tx.execute (tx'.execute rows) := by
  refine (execute_localOn tx).comm (execute_localOn tx') ?_ rfl rfl rfl rfl
  rw [Set.disjoint_left]
  intro i hi hi'
  exact h ⟨i, hi, hi'⟩

theorem commutes : Commutes YCSBTransaction.execute Conflict fun _ _ => True where
  ok_perm := fun _ _ => trivial
  ok_step := fun _ => trivial
  comm := fun _ h => execute_comm h _

/-- **Parallel execution equals serial execution.** -/
theorem parallel_eq_serial (log : List YCSBTransaction) (order : List (Fin log.length))
    (h : Allowed Conflict log order) (rows : Rows) :
    exec YCSBTransaction.execute (order.map log.get) rows =
      exec YCSBTransaction.execute log rows :=
  h.exec_eq commutes trivial

/-- The transaction on the ten rows from `10 * k`. -/
def exampleTransaction (k : Fin 2) (writeSet : UInt16) : YCSBTransaction where
  indices := Vector.ofFn fun i => UInt32.ofNat (10 * k.val + i.val)
  writeSet := writeSet
  distinct := by revert k; decide
  below := by
    intro i hi
    rw [Vector.mem_toList_iff, Vector.mem_ofFn] at hi
    obtain ⟨j, rfl⟩ := hi
    have hk := k.isLt
    have hj : j.val < 10 := j.isLt
    rw [UInt32.toNat_ofNat_of_lt' (by simp only [UInt32.size]; omega)]
    unfold dbSize
    omega

def exampleRows : Rows := fun i => ⟨Vector.replicate rowSize (Int8.ofNat i)⟩

theorem parallel_eq_serial_swapped :
    (exampleTransaction 0 3).execute ((exampleTransaction 1 5).execute exampleRows) =
      (exampleTransaction 1 5).execute ((exampleTransaction 0 3).execute exampleRows) :=
  parallel_eq_serial [exampleTransaction 0 3, exampleTransaction 1 5] [1, 0]
    ⟨by decide, by decide⟩ exampleRows

end Doradd.Ycsb
