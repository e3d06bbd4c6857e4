import Mathlib.Data.List.GetD
import Doradd.Lib.Totals
import Doradd.Ycsb.Transaction

/-!
# The meaning of a YCSB transaction

The ten steps of a body share one sum and one mask that is shifted at every step.
What they come to is stated row by row, in terms of the database before.

* `After.txn`: what one step adds;
* `execute_meaning`: what the whole transaction does.
-/

namespace Doradd.Ycsb

open Lib

/-! ## The specification -/

/-- The sum of the bytes of a payload. -/
def byteSum (payload : Vector Int8 rowSize) : Nat :=
  (payload.toList.map fun c => c.toUInt8.toNat).sum

namespace YCSBTransaction

variable (tx : YCSBTransaction)

/-- Row `i` of the ten. -/
def row (i : Nat) : Nat := tx.rows.getD i 0

/-- Bit `i` of the write set. -/
def writes (i : Nat) : Bool := tx.writeSet.toNat.testBit i

/-- The bytes of the rows before `i` that are read, modulo 256. -/
def sumBefore (rows : Rows) (i : Nat) : UInt8 :=
  UInt8.ofNat (total (fun j => byteSum (rows (tx.row j)).payload) (fun j => !tx.writes j)
    (List.range i))

/-- What becomes of row `i`. -/
def written (rows : Rows) (i : Nat) : YCSBRow :=
  if tx.writes i then ⟨memset (rows (tx.row i)).payload (tx.sumBefore rows i)⟩
  else rows (tx.row i)

/-- **What a transaction means.** -/
structure Meaning (rows rows' : Rows) : Prop where
  outside : ∀ j, j ∉ tx.rows → rows' j = rows j
  read : ∀ i < rowsPerTx, tx.writes i = false → rows' (tx.row i) = rows (tx.row i)
  head : ∀ i < rowsPerTx, tx.writes i = true → ∀ j (hj : j < rowSize), j < writeSize →
    (rows' (tx.row i)).payload[j] = (tx.sumBefore rows i).toInt8
  rest : ∀ i < rowsPerTx, tx.writes i = true → ∀ j (hj : j < rowSize), ¬ j < writeSize →
    (rows' (tx.row i)).payload[j] = (rows (tx.row i)).payload[j]
  highBits : ∀ tx' : YCSBTransaction, tx'.indices = tx.indices →
    tx'.writeSet.toNat % 2 ^ 10 = tx.writeSet.toNat % 2 ^ 10 → tx'.execute rows = rows'

end YCSBTransaction

/-! ## Sums and masks -/

theorem foldl_add_bytes (cs : List Int8) (sum : UInt8) :
    cs.foldl (fun sum c => sum + c.toUInt8) sum =
      sum + UInt8.ofNat (cs.map fun c => c.toUInt8.toNat).sum := by
  induction cs generalizing sum with
  | nil => exact (UInt8.add_zero sum).symm
  | cons c cs ih =>
    rw [List.foldl_cons, ih, List.map_cons, List.sum_cons, UInt8.ofNat_add, UInt8.ofNat_toNat,
      UInt8.add_assoc]

theorem addPayload_eq (sum : UInt8) (payload : Vector Int8 rowSize) :
    addPayload sum payload = sum + UInt8.ofNat (byteSum payload) := by
  unfold addPayload byteSum
  rw [← foldl_add_bytes, Vector.foldl_toList]

/-- The mask shows the bit of the step in its lowest place. -/
theorem mask_bit {mask : UInt16} {m n : Nat} (h : mask.toNat = m / 2 ^ n) :
    mask &&& 1 ≠ 0 ↔ m.testBit n = true := by
  have hand : (mask &&& 1).toNat = m / 2 ^ n % 2 := by
    rw [UInt16.toNat_and, h]
    exact Nat.and_one_is_mod _
  rw [Nat.testBit_eq_decide_div_mod_eq, decide_eq_true_eq, ne_eq, ← UInt16.toNat_inj, hand]
  have hlt := Nat.mod_lt (m / 2 ^ n) (by decide : 2 > 0)
  simp only [UInt16.reduceToNat]
  omega

theorem mask_shift {mask : UInt16} {m n : Nat} (h : mask.toNat = m / 2 ^ n) :
    (mask >>> 1).toNat = m / 2 ^ (n + 1) := by
  rw [UInt16.toNat_shiftRight, h, Nat.pow_succ, ← Nat.div_div_eq_div_mul]
  rfl

namespace YCSBTransaction

variable {tx : YCSBTransaction} {rows : Rows}

/-! ## The ten rows -/

theorem length_rows (tx : YCSBTransaction) : tx.rows.length = rowsPerTx := by
  rw [YCSBTransaction.rows, List.length_map, Vector.length_toList]

theorem row_eq {i : Nat} (hi : i < rowsPerTx) : tx.row i = tx.rows.get ⟨i, tx.length_rows ▸ hi⟩ :=
  List.getD_eq_getElem _ _ _

theorem rows_eq (tx : YCSBTransaction) : tx.rows = (List.range rowsPerTx).map tx.row := by
  apply List.ext_getElem
  · rw [List.length_map, List.length_range, length_rows]
  · intro i hi hi'
    rw [List.getElem_map, List.getElem_range, row_eq (tx.length_rows ▸ hi)]
    rfl

theorem row_mem {i : Nat} (hi : i < rowsPerTx) : tx.row i ∈ tx.rows := by
  rw [row_eq hi]
  exact List.get_mem _ _

theorem rows_nodup (tx : YCSBTransaction) : tx.rows.Nodup :=
  tx.distinct.map fun _ _ h => UInt32.toNat_inj.mp h

theorem row_inj {i j : Nat} (hi : i < rowsPerTx) (hj : j < rowsPerTx) (h : tx.row i = tx.row j) :
    i = j := by
  rw [row_eq hi, row_eq hj] at h
  exact Fin.mk.inj (tx.rows_nodup.injective_get h)

/-! ## Steps -/

theorem sumBefore_succ (tx : YCSBTransaction) (rows : Rows) (n : Nat) :
    tx.sumBefore rows (n + 1) =
      if tx.writes n then tx.sumBefore rows n
      else tx.sumBefore rows n + UInt8.ofNat (byteSum (rows (tx.row n)).payload) := by
  unfold sumBefore
  rw [List.range_succ, total_snoc]
  cases tx.writes n with
  | true => rfl
  | false => exact UInt8.ofNat_add _ _

/-- The body after the first `n` steps. -/
structure After (tx : YCSBTransaction) (rows : Rows) (n : Nat) (s : Body) : Prop where
  sum : s.sum = tx.sumBefore rows n
  mask : s.writeSetL.toNat = tx.writeSet.toNat / 2 ^ n
  done : ∀ i < n, s.rows (tx.row i) = tx.written rows i
  others : ∀ k, (∀ i < n, k ≠ tx.row i) → s.rows k = rows k

section

variable {n : Nat} {s : Body}

/-- The step of a row that is written. -/
theorem After.txn_writes (h : After tx rows n s) (hrow : s.rows (tx.row n) = rows (tx.row n))
    (hb : tx.writes n = true) : Ycsb.txn s (tx.row n) =
      { s with
        rows := Function.update s.rows (tx.row n) (tx.written rows n)
        writeSetL := s.writeSetL >>> 1 } := by
  unfold Ycsb.txn written
  rw [if_pos ((mask_bit h.mask).mpr hb), if_pos hb, hrow, h.sum]

/-- The step of a row that is read. -/
theorem After.txn_reads (h : After tx rows n s) (hrow : s.rows (tx.row n) = rows (tx.row n))
    (hb : ¬ tx.writes n = true) : Ycsb.txn s (tx.row n) =
      { s with
        sum := tx.sumBefore rows n + UInt8.ofNat (byteSum (rows (tx.row n)).payload)
        writeSetL := s.writeSetL >>> 1 } := by
  unfold Ycsb.txn
  rw [if_neg (mt (mask_bit h.mask).mp hb), addPayload_eq, hrow, h.sum]

/-- **Step.** -/
theorem After.txn (h : After tx rows n s) (hn : n < rowsPerTx) :
    After tx rows (n + 1) (Ycsb.txn s (tx.row n)) := by
  have hnew : ∀ i < n, tx.row i ≠ tx.row n := fun i hi he =>
    absurd (row_inj (Nat.lt_trans hi hn) hn he) (Nat.ne_of_lt hi)
  have hrow : s.rows (tx.row n) = rows (tx.row n) := h.others _ fun i hi he => hnew i hi he.symm
  have hframe : ∀ k, k ≠ tx.row n → (Ycsb.txn s (tx.row n)).rows k = s.rows k :=
    fun k hk => txn_frame s hk
  have hothers : ∀ k, (∀ i < n + 1, k ≠ tx.row i) → (Ycsb.txn s (tx.row n)).rows k = rows k := by
    intro k hk
    rw [hframe k (hk n (Nat.lt_succ_self n))]
    exact h.others k fun i hi => hk i (Nat.lt_succ_of_lt hi)
  have hdone : (Ycsb.txn s (tx.row n)).rows (tx.row n) = tx.written rows n →
      ∀ i < n + 1, (Ycsb.txn s (tx.row n)).rows (tx.row i) = tx.written rows i := by
    intro hlast i hi
    rcases Nat.lt_succ_iff_lt_or_eq.mp hi with hi | rfl
    · exact (hframe _ (hnew i hi)).trans (h.done i hi)
    · exact hlast
  have hsum := sumBefore_succ tx rows n
  by_cases hb : tx.writes n = true
  · rw [if_pos hb] at hsum
    refine ⟨?_, ?_, hdone ?_, hothers⟩
    · rw [h.txn_writes hrow hb, hsum]
      exact h.sum
    · rw [h.txn_writes hrow hb]
      exact mask_shift h.mask
    · rw [h.txn_writes hrow hb]
      exact Function.update_self _ _ _
  · rw [if_neg hb] at hsum
    refine ⟨?_, ?_, hdone ?_, hothers⟩
    · rw [h.txn_reads hrow hb, hsum]
    · rw [h.txn_reads hrow hb]
      exact mask_shift h.mask
    · rw [h.txn_reads hrow hb, written, if_neg hb]
      exact hrow

end

/-- **Run.** -/
theorem after_foldl (tx : YCSBTransaction) (rows : Rows) {n : Nat} (hn : n ≤ rowsPerTx) :
    After tx rows n (((List.range n).map tx.row).foldl Ycsb.txn ⟨rows, 0, tx.writeSet⟩) := by
  induction n with
  | zero =>
    refine ⟨rfl, ?_, fun i hi => absurd hi (Nat.not_lt_zero i), fun k _ => rfl⟩
    exact (Nat.div_one _).symm
  | succ n ih =>
    rw [List.range_succ, List.map_append, List.foldl_append]
    exact (ih (Nat.le_of_succ_le hn)).txn hn

theorem after_execute (tx : YCSBTransaction) (rows : Rows) :
    (∀ i < rowsPerTx, tx.execute rows (tx.row i) = tx.written rows i) ∧
      ∀ k, k ∉ tx.rows → tx.execute rows k = rows k := by
  have h := after_foldl tx rows (Nat.le_refl rowsPerTx)
  rw [← rows_eq] at h
  exact ⟨h.done, fun k hk => h.others k fun i hi he => hk (he ▸ row_mem hi)⟩

/-! ## The high bits -/

theorem row_congr {tx' : YCSBTransaction} (h : tx'.indices = tx.indices) (i : Nat) :
    tx'.row i = tx.row i := by
  unfold row YCSBTransaction.rows
  rw [h]

theorem writes_congr {tx' : YCSBTransaction}
    (h : tx'.writeSet.toNat % 2 ^ 10 = tx.writeSet.toNat % 2 ^ 10) {i : Nat}
    (hi : i < rowsPerTx) : tx'.writes i = tx.writes i := by
  have hlt : i < 10 := hi
  have hbit := congrArg (fun m => Nat.testBit m i) h
  simp only [Nat.testBit_mod_two_pow, hlt, decide_true, Bool.true_and] at hbit
  exact hbit

/-- Rows of the same ten with the same ten bits become the same. -/
theorem written_congr {tx' : YCSBTransaction} (hrow : ∀ i, tx'.row i = tx.row i)
    (hbit : ∀ i < rowsPerTx, tx'.writes i = tx.writes i) {i : Nat} (hi : i < rowsPerTx) :
    tx'.written rows i = tx.written rows i := by
  have hsum : tx'.sumBefore rows i = tx.sumBefore rows i := by
    unfold sumBefore
    congr 1
    refine total_congr fun j hj => ?_
    rw [hbit j (Nat.lt_trans (List.mem_range.mp hj) hi), hrow j]
  unfold written
  rw [hbit i hi, hrow i, hsum]

theorem execute_congr {tx' : YCSBTransaction} (h : tx'.indices = tx.indices)
    (hw : tx'.writeSet.toNat % 2 ^ 10 = tx.writeSet.toNat % 2 ^ 10) :
    tx'.execute rows = tx.execute rows := by
  have hrow := row_congr h
  have hrows : tx'.rows = tx.rows := by
    unfold YCSBTransaction.rows
    rw [h]
  obtain ⟨hdone, hothers⟩ := after_execute tx rows
  obtain ⟨hdone', hothers'⟩ := after_execute tx' rows
  funext k
  by_cases hk : k ∈ tx.rows
  · rw [rows_eq] at hk
    obtain ⟨i, hi, rfl⟩ := List.mem_map.mp hk
    rw [List.mem_range] at hi
    rw [hdone i hi, ← hrow i, hdone' i hi]
    exact written_congr hrow (fun j hj => writes_congr hw hj) hi
  · rw [hothers k hk, hothers' k (hrows ▸ hk)]

end YCSBTransaction

open YCSBTransaction in
/-- **The meaning of a transaction**, for every database, all ten rows and every write
set. -/
theorem execute_meaning (tx : YCSBTransaction) (rows : Rows) :
    tx.Meaning rows (tx.execute rows) := by
  obtain ⟨hdone, hothers⟩ := after_execute tx rows
  constructor
  · exact hothers
  · intro i hi hb
    rw [hdone i hi, written, hb]
    rfl
  · intro i hi hb j hj hlt
    simp only [hdone i hi, written, hb, if_true, memset, Vector.getElem_ofFn, if_pos hlt]
  · intro i hi hb j hj hge
    simp only [hdone i hi, written, hb, if_true, memset, Vector.getElem_ofFn, if_neg hge]
    rfl
  · intro tx' h hw
    exact execute_congr h hw

end Doradd.Ycsb
