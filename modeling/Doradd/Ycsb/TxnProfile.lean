import Doradd.Ycsb.Transaction

/-!
# Three ways to write a transaction

The profile of the YCSB transaction has its body three times: as a loop over the indices,
as a fold of a lambda over the rows, and as ten blocks one below the other.  All of them
thread the table, the sum and the shifted write set.

* `variants_agree`: they leave the same table, also where a row comes twice.
-/

namespace Doradd.Ycsb.TxnProfile

variable {n : Nat}

/-! ## txn_profile.cpp -/

/-- The table, and what the blocks hand on to one another. -/
structure TxnState (n : Nat) where
  rows : Vector YCSBRow n
  sum : UInt8
  writeSet : UInt16

/-- One round of the loop of `process_txn`. -/
def processIndex (indices : Vector (Fin n) rowsPerTx) (s : TxnState n) (i : Fin rowsPerTx) :
    TxnState n :=
  let idx := indices[i]
  let s : TxnState n :=
    if s.writeSet &&& 0x1 ≠ 0 then
      { s with rows := s.rows.set idx.val ⟨memset s.rows[idx].payload s.sum⟩ idx.isLt }
    else { s with sum := addPayload s.sum s.rows[idx].payload }
  { s with writeSet := s.writeSet >>> 1 }

def processTxn (writeSet : UInt16) (indices : Vector (Fin n) rowsPerTx)
    (rows : Vector YCSBRow n) : Vector YCSBRow n :=
  ((List.finRange rowsPerTx).foldl (processIndex indices) ⟨rows, 0, writeSet⟩).rows

/-- The lambda `process_each_row`: both `sum` and `ws` are references. -/
def processEachRow (s : TxnState n) (row : Fin n) : TxnState n :=
  let s : TxnState n :=
    if s.writeSet &&& 0x1 ≠ 0 then
      { s with rows := s.rows.set row.val ⟨memset s.rows[row].payload s.sum⟩ row.isLt }
    else { s with sum := addPayload s.sum s.rows[row].payload }
  { s with writeSet := s.writeSet >>> 1 }

/-- `(process_each_row(write_set, row), ...)` -/
def processRows (s : TxnState n) : List (Fin n) → TxnState n
  | [] => s
  | row :: rows => processRows (processEachRow s row) rows

def processTxnClosure (writeSet : UInt16) (indices : Vector (Fin n) rowsPerTx)
    (rows : Vector YCSBRow n) : Vector YCSBRow n :=
  let row0 := indices[0]
  let row1 := indices[1]
  let row2 := indices[2]
  let row3 := indices[3]
  let row4 := indices[4]
  let row5 := indices[5]
  let row6 := indices[6]
  let row7 := indices[7]
  let row8 := indices[8]
  let row9 := indices[9]
  (processRows ⟨rows, 0, writeSet⟩
    [row0, row1, row2, row3, row4, row5, row6, row7, row8, row9]).rows

def processTxnUnfold (writeSet : UInt16) (indices : Vector (Fin n) rowsPerTx)
    (rows : Vector YCSBRow n) : Vector YCSBRow n :=
  let s : TxnState n := ⟨rows, 0, writeSet⟩
  let row0 := indices[0]
  let row1 := indices[1]
  let row2 := indices[2]
  let row3 := indices[3]
  let row4 := indices[4]
  let row5 := indices[5]
  let row6 := indices[6]
  let row7 := indices[7]
  let row8 := indices[8]
  let row9 := indices[9]

  let s : TxnState n :=
    if s.writeSet &&& 0x1 ≠ 0 then
      { s with rows := s.rows.set row0.val ⟨memset s.rows[row0].payload s.sum⟩ row0.isLt }
    else { s with sum := addPayload s.sum s.rows[row0].payload }
  let s : TxnState n := { s with writeSet := s.writeSet >>> 1 }

  let s : TxnState n :=
    if s.writeSet &&& 0x1 ≠ 0 then
      { s with rows := s.rows.set row1.val ⟨memset s.rows[row1].payload s.sum⟩ row1.isLt }
    else { s with sum := addPayload s.sum s.rows[row1].payload }
  let s : TxnState n := { s with writeSet := s.writeSet >>> 1 }

  let s : TxnState n :=
    if s.writeSet &&& 0x1 ≠ 0 then
      { s with rows := s.rows.set row2.val ⟨memset s.rows[row2].payload s.sum⟩ row2.isLt }
    else { s with sum := addPayload s.sum s.rows[row2].payload }
  let s : TxnState n := { s with writeSet := s.writeSet >>> 1 }

  let s : TxnState n :=
    if s.writeSet &&& 0x1 ≠ 0 then
      { s with rows := s.rows.set row3.val ⟨memset s.rows[row3].payload s.sum⟩ row3.isLt }
    else { s with sum := addPayload s.sum s.rows[row3].payload }
  let s : TxnState n := { s with writeSet := s.writeSet >>> 1 }

  let s : TxnState n :=
    if s.writeSet &&& 0x1 ≠ 0 then
      { s with rows := s.rows.set row4.val ⟨memset s.rows[row4].payload s.sum⟩ row4.isLt }
    else { s with sum := addPayload s.sum s.rows[row4].payload }
  let s : TxnState n := { s with writeSet := s.writeSet >>> 1 }

  let s : TxnState n :=
    if s.writeSet &&& 0x1 ≠ 0 then
      { s with rows := s.rows.set row5.val ⟨memset s.rows[row5].payload s.sum⟩ row5.isLt }
    else { s with sum := addPayload s.sum s.rows[row5].payload }
  let s : TxnState n := { s with writeSet := s.writeSet >>> 1 }

  let s : TxnState n :=
    if s.writeSet &&& 0x1 ≠ 0 then
      { s with rows := s.rows.set row6.val ⟨memset s.rows[row6].payload s.sum⟩ row6.isLt }
    else { s with sum := addPayload s.sum s.rows[row6].payload }
  let s : TxnState n := { s with writeSet := s.writeSet >>> 1 }

  let s : TxnState n :=
    if s.writeSet &&& 0x1 ≠ 0 then
      { s with rows := s.rows.set row7.val ⟨memset s.rows[row7].payload s.sum⟩ row7.isLt }
    else { s with sum := addPayload s.sum s.rows[row7].payload }
  let s : TxnState n := { s with writeSet := s.writeSet >>> 1 }

  let s : TxnState n :=
    if s.writeSet &&& 0x1 ≠ 0 then
      { s with rows := s.rows.set row8.val ⟨memset s.rows[row8].payload s.sum⟩ row8.isLt }
    else { s with sum := addPayload s.sum s.rows[row8].payload }
  let s : TxnState n := { s with writeSet := s.writeSet >>> 1 }

  let s : TxnState n :=
    if s.writeSet &&& 0x1 ≠ 0 then
      { s with rows := s.rows.set row9.val ⟨memset s.rows[row9].payload s.sum⟩ row9.isLt }
    else { s with sum := addPayload s.sum s.rows[row9].payload }
  let s : TxnState n := { s with writeSet := s.writeSet >>> 1 }
  s.rows

/-! ## The variants -/

variable (writeSet : UInt16) (indices : Vector (Fin n) rowsPerTx) (rows : Vector YCSBRow n)

/-- The fold goes through the rows from left to right. -/
theorem processRows_eq (s : TxnState n) (is : List (Fin n)) :
    processRows s is = is.foldl processEachRow s := by
  induction is generalizing s with
  | nil => rfl
  | cons i is ih => exact ih (processEachRow s i)

/-- A round of the loop is the lambda on the row of its index. -/
theorem processTxn_eq : processTxn writeSet indices rows =
    (indices.toList.foldl processEachRow ⟨rows, 0, writeSet⟩).rows := by
  have hindices : indices.toList = (List.finRange rowsPerTx).map fun i => indices[i] := by
    apply List.ext_getElem
    · simp
    · intro i hi hi'
      simp
  rw [hindices, List.foldl_map]
  rfl

theorem processTxnClosure_eq : processTxnClosure writeSet indices rows =
    (indices.toList.foldl processEachRow ⟨rows, 0, writeSet⟩).rows := by
  rw [← processTxn_eq, processTxnClosure, processRows_eq]
  rfl

/-- Block by block, the table and the locals are those that the lambda leaves. -/
theorem processTxnUnfold_eq :
    processTxnUnfold writeSet indices rows = processTxnClosure writeSet indices rows := rfl

/-- **The variants leave the same table**, for every write set, all tables and any indices
into them. -/
theorem variants_agree :
    processTxnClosure writeSet indices rows = processTxn writeSet indices rows ∧
      processTxnUnfold writeSet indices rows = processTxn writeSet indices rows := by
  have hclosure : processTxnClosure writeSet indices rows = processTxn writeSet indices rows := by
    rw [processTxnClosure_eq, processTxn_eq]
  exact ⟨hclosure, (processTxnUnfold_eq writeSet indices rows).trans hclosure⟩

end Doradd.Ycsb.TxnProfile
