import Doradd.Dispatcher.System
import Doradd.Lib.Behaviours
import Doradd.Tpcc.Prepare
import Doradd.Tpcc.Serial

/-!
# Bodies that read the log when they are run

A body captures the address of its record and the rows behind the cowns that it was given.
The parameters are read from the mapped log when the body is run, which may be long after
the record was dispatched; only the amount of a Payment is captured by value.

* `resolves`: a record spawns the bodies of its transaction once its pointers are resolved;
* `toWhen_good`: they do what the transaction does, as long as the parameters in the log
  are those that were written to the file.
-/

namespace Doradd.Tpcc

open Lib

/-! ## tpcc.cc -/

/-- The body of a `when`; that of a NewOrder is written for one number of items. -/
inductive When.Kind
  | warehouseOp
  | newOrder (items : Nat)
  | payment (hAmount : UInt32)
  deriving DecidableEq

/-- A `when`: whether it is given `w`, the pointer `txm`, and the rows behind the cowns
`w`, `d`, `c`, `s1`, .., `i1`, .. that were made from the pointers of the record. -/
structure When where
  kind : When.Kind
  withWarehouse : Bool
  txm : Nat
  rows : List Cown

instance : Inhabited When := ⟨⟨.warehouseOp, true, 0, []⟩⟩

namespace When

variable (sc : Scale) (w : When)

def row (j : Nat) : List Cown := (w.rows[j]?).toList

/-- The rows that it acquires besides the warehouse, in the order of `WHEN_PARAMS`. -/
def others : List Cown :=
  match w.kind with
  | .warehouseOp => []
  | .newOrder n =>
    w.row 1 ++ (w.row 2 ++ (List.range n).flatMap fun k => w.row (3 + k) ++ w.row (3 + n + k))
  | .payment _ => w.row 1 ++ w.row 2

def cowns : List Cown := if w.withWarehouse then w.row 0 ++ w.others else w.others

def Conflict (w w' : When) : Prop := ∃ a ∈ w.cowns, a ∈ w'.cowns

instance : DecidableRel Conflict := fun w w' =>
  inferInstanceAs (Decidable (∃ a ∈ w.cowns, a ∈ w'.cowns))

/-- The acquired row `j`, which the body takes for a row of the table `t`. -/
def key (t : TableId) (j : Nat) : Except Fault UInt64 :=
  match w.rows[j]? with
  | some a => if a.1 = t then .ok a.2 else .error .nullCown
  | none => .error .nullCown

/-- `UPDATE_STOCK_AND_INSERT_ORDER_LINE` in the body for `n` items. -/
def line (txm : TPCCTransactionMarshalled) (n : Nat) (orderHashKey : UInt64) (db : Database)
    (k : Fin 15) : Except Fault Database := do
  let s ← w.key .stock (3 + k.val)
  let i ← w.key .item (3 + n + k.val)
  let db ← db.updateRow sc .stock s (updateStock txm k)
  let item ← db.readRow sc .item i
  let ol := orderLine txm orderHashKey k item
  db.insertRow sc .orderLine ol.hashKey ol

/-- `WAREHOUSE_OP`, or the body that does only that. -/
def opWarehouse (txm : TPCCTransactionMarshalled) (db : Database) : Except Fault Database :=
  if w.withWarehouse then do
    let key ← w.key .warehouse 0
    db.updateRow sc .warehouse key (payWarehouse txm)
  else .ok db

/-- What follows the operation on the warehouse. -/
def body (txm : TPCCTransactionMarshalled) (db : Database) : Except Fault Database :=
  match w.kind with
  | .warehouseOp => .ok db
  | .newOrder n => do
    let key ← w.key .district 1
    let d ← db.readRow sc .district key
    let o := newOrderRow txm d.dNextOId
    let no := newOrderMark txm d.dNextOId
    let db ← db.updateRow sc .district key takeOrderId
    let db ← ((List.finRange 15).take n).foldlM (w.line sc txm n o.hashKey) db
    let db ← db.insertRow sc .order o.hashKey o
    db.insertRow sc .newOrder no.hashKey no
  | .payment hAmount => do
    let district ← w.key .district 1
    let customer ← w.key .customer 2
    let db ← db.updateRow sc .district district fun d =>
      { d with dYtd := d.dYtd + hAmount.toUInt64 }
    db.updateRow sc .customer customer fun c =>
      { c with
        cBalance := c.cBalance - hAmount.toFloat32
        cYtdPayment := c.cYtdPayment + hAmount.toUInt64
        cPaymentCnt := c.cPaymentCnt + 1 }

/-- The body is run while `mem` is in the log. -/
def execute (mem : List UInt8) (db : Database) : Except Fault Database := do
  let txm := TPCCTransactionMarshalled.read mem w.txm
  let db ← w.opWarehouse sc txm db
  w.body sc txm db

end When

/-- The rows that there are. -/
abbrev RowId (sc : Scale) : Type := { a : Cown // a.2 < tsize sc a.1 }

/-- The cown of a row; past the end of a table there is none to be looked up. -/
def RowId.of (sc : Scale) (a : Cown) : RowId sc :=
  if h : a.2 < tsize sc a.1 then ⟨a, h⟩
  else ⟨(.item, 0), lt_tsize (t := .item) (Nat.zero_lt_succ _)⟩

/-- `parse_and_process`, with the behaviours that it spawns. -/
def parseAndProcess {sc : Scale} (rt : CownAddrs (RowId sc)) (warehouseSplit : Bool)
    (mem : List UInt8) (p : Nat) : List When :=
  let rows := (TPCCTransactionMarshalled.takenPtrs mem p).map fun a =>
    (rt.getCownPtrFromAddr a).val
  let itemNumber := (TPCCTransactionMarshalled.param mem p 50).toNat
  let when' := fun kind =>
    if warehouseSplit then [When.mk .warehouseOp true p rows, ⟨kind, false, p, rows⟩]
    else [⟨kind, true, p, rows⟩]
  if TPCCTransactionMarshalled.typeOf mem p = 0 then
    if 1 ≤ itemNumber ∧ itemNumber ≤ 15 then when' (.newOrder itemNumber) else []
  else if TPCCTransactionMarshalled.typeOf mem p = 1 then
    when' (.payment (TPCCTransactionMarshalled.param mem p 52))
  else []

/-- `prepare_cowns` and `parse_and_process`, where a row is its own cown. -/
def app {sc : Scale} (rt : CownAddrs (RowId sc)) (stray : Cown → UInt64)
    (warehouseSplit : Bool) : App When where
  prepareCowns := (TPCCTransactionMarshalled.preparer
    (lookupAddr rt (TPCCTransactionMarshalled.getRow sc (RowId.of sc)) stray)).prepare
  parseAndProcess := parseAndProcess rt warehouseSplit

/-! ## Bodies and behaviours -/

/-- The body of a behaviour of the record at `p`. -/
def Behaviour.toWhen (p : Nat) (b : Behaviour) : When :=
  match b with
  | .warehouseOp txm => ⟨.warehouseOp, true, p, txm.prepareCowns⟩
  | .newOrder ww txm => ⟨.newOrder txm.numberOfItems.toNat, ww, p, txm.prepareCowns⟩
  | .payment ww txm => ⟨.payment txm.hAmount, ww, p, txm.prepareCowns⟩

/-- The behaviour of a body, by what is in the log. -/
def When.toBehaviour (mem : List UInt8) (w : When) : Behaviour :=
  match w.kind with
  | .warehouseOp => .warehouseOp (.read mem w.txm)
  | .newOrder _ => .newOrder w.withWarehouse (.read mem w.txm)
  | .payment _ => .payment w.withWarehouse (.read mem w.txm)

/-- The body acquires the rows of its behaviour, and does what that does. -/
structure When.Good (sc : Scale) (mem : List UInt8) (w : When) : Prop where
  execute : ∀ db, w.execute sc mem db = (w.toBehaviour mem).execute sc db
  cowns : w.cowns = (w.toBehaviour mem).cowns

theorem toBehaviour_toWhen {mem : List UInt8} {p : Nat} {b : Behaviour}
    (h : TPCCTransactionMarshalled.read mem p = b.txm) :
    (b.toWhen p).toBehaviour mem = b := by
  cases b <;> simp only [Behaviour.toWhen, When.toBehaviour, h] <;> rfl

section

variable {sc : Scale} {txm : TPCCTransactionMarshalled} {mem : List UInt8} {p : Nat}

/-- The behaviours of a record are of its type. -/
theorem spawn_cases {split : Bool} {b : Behaviour} (hb : b ∈ spawn split txm) :
    (txm.txnType = 0 ∧ txm.numberOfItems ≤ 15 ∧
      (b = .warehouseOp txm ∨ ∃ ww, b = .newOrder ww txm)) ∨
    (txm.txnType = 1 ∧ (b = .warehouseOp txm ∨ ∃ ww, b = .payment ww txm)) := by
  have hwhen : ∀ c : Bool → TPCCTransactionMarshalled → Behaviour,
      b ∈ (if split then [.warehouseOp txm, c false txm] else [c true txm]) →
        b = .warehouseOp txm ∨ ∃ ww, b = c ww txm := by
    intro c hb
    split at hb
    · simp only [List.mem_cons, List.not_mem_nil, or_false] at hb
      exact hb.imp_right fun h => ⟨false, h⟩
    · exact Or.inr ⟨true, List.mem_singleton.mp hb⟩
  unfold spawn at hb
  by_cases h₀ : txm.txnType = 0
  · rw [if_pos h₀] at hb
    split at hb
    · rename_i hn
      exact Or.inl ⟨h₀, hn.2, hwhen .newOrder hb⟩
    · cases hb
  · rw [if_neg h₀] at hb
    split at hb
    · rename_i h₁
      exact Or.inr ⟨h₁, hwhen .payment hb⟩
    · cases hb

/-! ## The rows of a record -/

theorem key_eq {w : When} {t : TableId} {j : Nat} {key : UInt64} (h : w.rows[j]? = some (t, key)) :
    w.key t j = .ok key := by
  rw [When.key, h]
  exact if_pos rfl

theorem row_eq {w : When} {j : Nat} {a : Cown} (h : w.rows[j]? = some a) : w.row j = [a] := by
  rw [When.row, h]
  rfl

namespace TPCCTransactionMarshalled

theorem prepareCowns_head (h : txm.txnType = 0 ∨ txm.txnType = 1) :
    ∃ rest, txm.prepareCowns = (.warehouse, txm.warehouseKey) :: (.district, txm.districtKey) ::
      (.customer, txm.customerKey) :: rest := by
  unfold prepareCowns
  rcases h with h | h
  · rw [if_pos h]
    exact ⟨_, rfl⟩
  · rw [if_neg (by rw [h]; decide), if_pos h]
    exact ⟨_, rfl⟩

theorem mem_lines (h : txm.numberOfItems ≤ 15) {k : Fin 15} :
    k ∈ txm.lines ↔ k.val < txm.numberOfItems.toNat := by
  have hn : txm.numberOfItems.toNat ≤ 15 := UInt32.le_iff_toNat_le.mp h
  unfold lines
  rw [List.mem_take_iff_getElem]
  constructor
  · rintro ⟨i, hi, rfl⟩
    simp only [List.getElem_finRange]
    simp only [List.length_finRange] at hi
    exact Nat.lt_of_lt_of_le hi (Nat.min_le_left _ _)
  · intro hk
    refine ⟨k.val, ?_, ?_⟩
    · rw [List.length_finRange]
      omega
    · rw [List.getElem_finRange]
      rfl

theorem getElem?_lines (h : txm.numberOfItems ≤ 15) {k : Fin 15} (hk : k ∈ txm.lines) :
    txm.lines[k.val]? = some k := by
  have hlt := (mem_lines h).mp hk
  unfold lines
  rw [List.getElem?_take_of_lt hlt, List.getElem?_eq_getElem (by simp), List.getElem_finRange]
  rfl

theorem length_lines (h : txm.numberOfItems ≤ 15) :
    txm.lines.length = txm.numberOfItems.toNat := by
  have hn : txm.numberOfItems.toNat ≤ 15 := UInt32.le_iff_toNat_le.mp h
  unfold lines
  rw [List.length_take, List.length_finRange, Nat.min_eq_left hn]

/-- The rows of a line. -/
theorem prepareCowns_line (ht : txm.txnType = 0) (hn : txm.numberOfItems ≤ 15) {k : Fin 15}
    (hk : k ∈ txm.lines) :
    txm.prepareCowns[3 + k.val]? = some (.stock, txm.stockKey k) ∧
      txm.prepareCowns[3 + txm.numberOfItems.toNat + k.val]? = some (.item, txm.itemKey k) := by
  have hget := getElem?_lines hn hk
  have hlt := (mem_lines hn).mp hk
  have hlen := length_lines hn
  unfold prepareCowns
  rw [if_pos ht]
  constructor
  · rw [List.getElem?_append_right (Nat.le_add_right 3 _), List.getElem?_append_left]
    · simp only [List.length_cons, List.length_nil, Nat.add_sub_cancel_left, List.getElem?_map,
        hget, Option.map_some]
    · simp only [List.length_cons, List.length_nil, List.length_map, hlen]
      omega
  · rw [List.getElem?_append_right (by simp only [List.length_cons, List.length_nil]; omega),
      List.getElem?_append_right]
    · have hpos : 3 + txm.numberOfItems.toNat + k.val - 3 - txm.numberOfItems.toNat = k.val := by
        omega
      simp only [List.length_cons, List.length_nil, List.length_map, hlen, List.getElem?_map, hpos,
        hget, Option.map_some]
    · simp only [List.length_cons, List.length_nil, List.length_map, hlen]
      omega

end TPCCTransactionMarshalled

/-! ## What the bodies do -/

variable (sc p)

theorem opWarehouse_toWhen (h : txm.txnType = 0 ∨ txm.txnType = 1) {b : Behaviour}
    (hb : b.txm = txm) (db : Database) :
    (b.toWhen p).opWarehouse sc txm db = b.opWarehouse sc db := by
  obtain ⟨rest, hrows⟩ := txm.prepareCowns_head h
  have hw : (b.toWhen p).withWarehouse = b.withWarehouse := by cases b <;> rfl
  have hrow : (b.toWhen p).rows[0]? = some (.warehouse, txm.warehouseKey) := by
    have heq : (b.toWhen p).rows = b.txm.prepareCowns := by cases b <;> rfl
    rw [heq, hb, hrows]
    rfl
  unfold When.opWarehouse Behaviour.opWarehouse
  rw [hw, key_eq hrow, hb]
  rfl

theorem line_toWhen (ht : txm.txnType = 0) (hn : txm.numberOfItems ≤ 15) (ww : Bool)
    (orderHashKey : UInt64) (db : Database) {k : Fin 15} (hk : k ∈ txm.lines) :
    ((Behaviour.newOrder ww txm).toWhen p).line sc txm txm.numberOfItems.toNat orderHashKey db k =
      updateStockAndInsertOrderLine sc txm orderHashKey db k := by
  obtain ⟨hs, hi⟩ := txm.prepareCowns_line ht hn hk
  unfold When.line updateStockAndInsertOrderLine
  rw [bind_of_ok (key_eq (w := (Behaviour.newOrder ww txm).toWhen p) hs),
    bind_of_ok (key_eq (w := (Behaviour.newOrder ww txm).toWhen p) hi)]

theorem foldlM_congr_mem {α β ε : Type} {f g : β → α → Except ε β} {as : List α}
    (h : ∀ a ∈ as, ∀ x, f x a = g x a) (x : β) : as.foldlM f x = as.foldlM g x := by
  induction as generalizing x with
  | nil => rfl
  | cons a as ih =>
    rw [List.foldlM_cons, List.foldlM_cons, h a List.mem_cons_self]
    exact congrArg _ (funext fun y => ih (fun b hb => h b (List.mem_cons_of_mem a hb)) y)

theorem newOrder_toWhen (ht : txm.txnType = 0) (hn : txm.numberOfItems ≤ 15) (ww : Bool)
    (db : Database) :
    ((Behaviour.newOrder ww txm).toWhen p).body sc txm db =
      (Behaviour.newOrder ww txm).body sc db := by
  obtain ⟨rest, hrows⟩ := txm.prepareCowns_head (Or.inl ht)
  have hd : ((Behaviour.newOrder ww txm).toWhen p).rows[1]? =
      some (.district, txm.districtKey) := by
    show txm.prepareCowns[1]? = _
    rw [hrows]
    rfl
  show (((Behaviour.newOrder ww txm).toWhen p).key .district 1 >>= fun key => _) = _
  rw [key_eq hd]
  have hlines : ∀ (hash : UInt64) (db : Database),
      ((List.finRange 15).take txm.numberOfItems.toNat).foldlM
          (((Behaviour.newOrder ww txm).toWhen p).line sc txm txm.numberOfItems.toNat hash) db =
        txm.lines.foldlM (updateStockAndInsertOrderLine sc txm hash) db :=
    fun hash => foldlM_congr_mem fun k hk db => line_toWhen sc p ht hn ww hash db hk
  simp only [hlines]
  rfl

theorem payment_toWhen (ht : txm.txnType = 1) (ww : Bool) (db : Database) :
    ((Behaviour.payment ww txm).toWhen p).body sc txm db =
      (Behaviour.payment ww txm).body sc db := by
  obtain ⟨rest, hrows⟩ := txm.prepareCowns_head (Or.inr ht)
  have hd : ((Behaviour.payment ww txm).toWhen p).rows[1]? =
      some (.district, txm.districtKey) := by
    show txm.prepareCowns[1]? = _
    rw [hrows]
    rfl
  have hc : ((Behaviour.payment ww txm).toWhen p).rows[2]? =
      some (.customer, txm.customerKey) := by
    show txm.prepareCowns[2]? = _
    rw [hrows]
    rfl
  show (((Behaviour.payment ww txm).toWhen p).key .district 1 >>= fun district =>
    ((Behaviour.payment ww txm).toWhen p).key .customer 2 >>= fun customer => _) = _
  rw [key_eq hd, key_eq hc]
  rfl

theorem cowns_toWhen {split : Bool} {b : Behaviour} (hb : b ∈ spawn split txm) :
    (b.toWhen p).cowns = b.cowns := by
  have hhead : txm.txnType = 0 ∨ txm.txnType = 1 := (spawn_cases hb).imp (fun h => h.1) fun h => h.1
  obtain ⟨rest, hrows⟩ := txm.prepareCowns_head hhead
  have hrow : ∀ {w : When} {j : Nat} {a : Cown}, w.rows = txm.prepareCowns →
      txm.prepareCowns[j]? = some a → w.row j = [a] := fun hw ha => row_eq (hw ▸ ha)
  have h₀ : txm.prepareCowns[0]? = some (.warehouse, txm.warehouseKey) := by rw [hrows]; rfl
  have h₁ : txm.prepareCowns[1]? = some (.district, txm.districtKey) := by rw [hrows]; rfl
  have h₂ : txm.prepareCowns[2]? = some (.customer, txm.customerKey) := by rw [hrows]; rfl
  have hop : ((Behaviour.warehouseOp txm).toWhen p).cowns = (Behaviour.warehouseOp txm).cowns := by
    show ((Behaviour.warehouseOp txm).toWhen p).row 0 ++ [] = _
    rw [hrow rfl h₀]
    rfl
  rcases spawn_cases hb with ⟨ht, hn, rfl | ⟨ww, rfl⟩⟩ | ⟨ht, rfl | ⟨ww, rfl⟩⟩
  · exact hop
  · have hlines : ((List.range txm.numberOfItems.toNat).flatMap fun k =>
        ((Behaviour.newOrder ww txm).toWhen p).row (3 + k) ++
          ((Behaviour.newOrder ww txm).toWhen p).row (3 + txm.numberOfItems.toNat + k)) =
        txm.lines.flatMap fun k => [(.stock, txm.stockKey k), (.item, txm.itemKey k)] := by
      have hn' : txm.numberOfItems.toNat ≤ 15 := UInt32.le_iff_toNat_le.mp hn
      rw [List.flatMap_def, TPCCTransactionMarshalled.map_range_lines hn', ← List.flatMap_def]
      refine List.flatMap_congr fun k hk => ?_
      obtain ⟨hs, hi⟩ := txm.prepareCowns_line ht hn hk
      rw [hrow rfl hs, hrow rfl hi]
      rfl
    have hothers : ((Behaviour.newOrder ww txm).toWhen p).others =
        (Behaviour.newOrder ww txm).others := by
      show _ ++ (_ ++ _) = _
      rw [hrow rfl h₁, hrow rfl h₂]
      exact congrArg (fun rest => [(.district, txm.districtKey)] ++
        ([(.customer, txm.customerKey)] ++ rest)) hlines
    show (if ww then _ else _) = (if ww then _ else _)
    rw [hothers, hrow rfl h₀]
    rfl
  · exact hop
  · have hothers : ((Behaviour.payment ww txm).toWhen p).others =
        (Behaviour.payment ww txm).others := by
      show _ ++ _ = _
      rw [hrow rfl h₁, hrow rfl h₂]
      rfl
    show (if ww then _ else _) = (if ww then _ else _)
    rw [hothers, hrow rfl h₀]
    rfl

/-- **A body does what its behaviour does**, if the record is in the log when it is run. -/
theorem toWhen_good {split : Bool} {b : Behaviour} (hb : b ∈ spawn split txm)
    (hread : TPCCTransactionMarshalled.read mem p = txm) : (b.toWhen p).Good sc mem := by
  have htype : txm.txnType = 0 ∨ txm.txnType = 1 := (spawn_cases hb).imp (fun h => h.1) fun h => h.1
  have htxm : b.txm = txm := by
    rcases spawn_cases hb with ⟨-, -, rfl | ⟨ww, rfl⟩⟩ | ⟨-, rfl | ⟨ww, rfl⟩⟩ <;> rfl
  have hback : (b.toWhen p).toBehaviour mem = b := toBehaviour_toWhen (hread.trans htxm.symm)
  have haddr : (b.toWhen p).txm = p := by cases b <;> rfl
  refine ⟨fun db => ?_, ?_⟩
  · rw [hback, When.execute, Behaviour.execute, haddr, hread, opWarehouse_toWhen sc p htype htxm db]
    refine congrArg _ (funext fun db => ?_)
    rcases spawn_cases hb with ⟨ht, hn, rfl | ⟨ww, rfl⟩⟩ | ⟨ht, rfl | ⟨ww, rfl⟩⟩
    · rfl
    · exact newOrder_toWhen sc p ht hn ww db
    · rfl
    · exact payment_toWhen sc p ht ww db
  · rw [hback, cowns_toWhen p hb]

/-- Once the pointers are resolved, the rows behind them are those of the keys. -/
theorem rows_eq {rt : CownAddrs (RowId sc)} {ptrs : List UInt64} (h : txm.Valid sc)
    (hptrs : PointTo rt (TPCCTransactionMarshalled.getRow sc (RowId.of sc)) ptrs
      txm.prepareCowns) :
    (ptrs.map fun a => (rt.getCownPtrFromAddr a).val) = txm.prepareCowns := by
  have hrow : ∀ a ∈ txm.prepareCowns,
      (TPCCTransactionMarshalled.getRow sc (RowId.of sc) a).map Subtype.val = some a := by
    intro a ha
    have hin := h.inside a ha
    rw [TPCCTransactionMarshalled.getRow, if_pos hin, RowId.of, dif_pos hin]
    rfl
  have hsome := congrArg (List.map (Option.map Subtype.val)) hptrs.rows
  rw [List.map_map, List.map_map] at hsome
  have hright := hsome.trans (List.map_congr_left hrow)
  apply List.map_injective_iff.mpr (Option.some_injective Cown)
  rw [List.map_map]
  exact hright

/-- **A record spawns the bodies of its transaction.** -/
theorem parseAndProcess_eq {rt : CownAddrs (RowId sc)} (split : Bool)
    (hread : TPCCTransactionMarshalled.read mem p = txm)
    (hrows : ((TPCCTransactionMarshalled.takenPtrs mem p).map fun a =>
      (rt.getCownPtrFromAddr a).val) = txm.prepareCowns) :
    parseAndProcess rt split mem p = (spawn split txm).map (Behaviour.toWhen p) := by
  have htype : TPCCTransactionMarshalled.typeOf mem p = txm.txnType := by rw [← hread]; rfl
  have hcount : TPCCTransactionMarshalled.param mem p 50 = txm.numberOfItems := by
    rw [← hread, TPCCTransactionMarshalled.numberOfItems_read]
  have hamount : TPCCTransactionMarshalled.param mem p 52 = txm.hAmount := by
    rw [← hread]
    exact (TPCCTransactionMarshalled.read_param mem p (by decide)).symm
  have hone : 1 ≤ txm.numberOfItems.toNat ∧ txm.numberOfItems.toNat ≤ 15 ↔
      1 ≤ txm.numberOfItems ∧ txm.numberOfItems ≤ 15 := by
    rw [UInt32.le_iff_toNat_le, UInt32.le_iff_toNat_le]
    rfl
  unfold parseAndProcess spawn
  simp only [htype, hcount, hamount, hrows, hone]
  cases split <;> split <;> try split
  all_goals rfl

end

end Doradd.Tpcc
