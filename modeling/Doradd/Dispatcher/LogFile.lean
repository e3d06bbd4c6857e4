import Doradd.Lib.Bytes
import Doradd.Dispatcher.Log

/-!
# The bytes of a log

A log file is a count of four bytes and the records, one after the other.  The
dispatcher maps the file and reads the fields of a record at their offsets.

* `field_logFile`: in the mapped file, the fields of record `k` are those of the
  `k`-th record that was written.
-/

namespace Doradd

open Lib

variable {α : Type}

/-- The file that a generator writes. -/
def logFile (count : Nat) (marshal : α → List UInt8) (txns : List α) : List UInt8 :=
  leBytes 4 count ++ txns.flatMap marshal

/-- `read_count = *(reinterpret_cast<uint32_t*>(read_top)); read_top += sizeof(uint32_t)`,
for a file that is mapped at address 0. -/
def Log.ofFile (recordSize : Nat) (h : 0 < recordSize) (mem : List UInt8) : Log where
  readTop := 4
  readCount := field mem 0 4
  recordSize := recordSize
  recordSize_pos := h
  readCount_lt := field_lt mem 0 4

section

variable {count n : Nat} {marshal : α → List UInt8} {txns : List α}

theorem length_logFile (hsize : ∀ t ∈ txns, (marshal t).length = n) :
    (logFile count marshal txns).length = 4 + n * txns.length := by
  unfold logFile
  rw [List.length_append, length_leBytes, length_flatMap_const hsize]

theorem readCount_logFile (h : 0 < n) :
    (Log.ofFile n h (logFile count marshal txns)).readCount = count % 2 ^ 32 := by
  have hlen : 0 + 4 ≤ (leBytes 4 count).length := Nat.le_of_eq (length_leBytes 4 count).symm
  exact (field_append_left _ _ hlen).trans (field_leBytes 4 count)

/-- **The records are found where they were written.** -/
theorem field_logFile (h : 0 < n) (hsize : ∀ t ∈ txns, (marshal t).length = n) {k : Nat}
    (hk : k < txns.length) {o m : Nat} (ho : o + m ≤ n) :
    field (logFile count marshal txns)
        ((Log.ofFile n h (logFile count marshal txns)).record k + o) m =
      field (marshal txns[k]) o m := by
  have haddr : (Log.ofFile n h (logFile count marshal txns)).record k + o =
      (leBytes 4 count).length + (n * k + o) := by
    rw [length_leBytes, Nat.mul_comm n k, ← Nat.add_assoc]
    rfl
  rw [haddr, logFile, field_append_right]
  exact field_flatMap hsize hk ho

end

end Doradd
