import Doradd.Lib.Fallible
import Doradd.Tpcc.Database

/-!
# A TPC-C transaction

A record of the log is decoded into one `when`, or two with `WAREHOUSE_SPLIT`.
The body of a `when` runs on the rows that it acquires; that of a NewOrder also
writes to three tables that no cown protects, in slots that depend on the next
order id of the district.

* `execute_newOrder`, `execute_payment`, `execute_warehouseOp`: everything that
  a body which goes through has done.
-/

namespace Doradd.Tpcc

open Lib

/-! ## Records -/

/-- The type of a record and its parameters; the resolved pointers are the keys
below. -/
structure TPCCTransactionMarshalled where
  txnType : UInt8
  params : Vector UInt32 65

namespace TPCCTransactionMarshalled

variable (txm : TPCCTransactionMarshalled)

def wId : UInt32 := txm.params[0]
def dId : UInt32 := txm.params[1]
def cId : UInt32 := txm.params[2]
def iId (k : Fin 15) : UInt32 := txm.params[5 + k.val]
def iWId (k : Fin 15) : UInt32 := txm.params[20 + k.val]
def iQty (k : Fin 15) : UInt32 := txm.params[35 + k.val]
def numberOfItems : UInt32 := txm.params[50]
def numberOfRows : UInt32 := txm.params[51]
def hAmount : UInt32 := txm.params[52]

/-! The keys that `prepare_cowns` looks up. -/

def warehouseKey : UInt64 := Warehouse.staticHashKey txm.wId
def districtKey : UInt64 := District.staticHashKey txm.wId txm.dId
def customerKey : UInt64 := Customer.staticHashKey txm.wId txm.dId txm.cId
def stockKey (k : Fin 15) : UInt64 := Stock.staticHashKey (txm.iWId k) (txm.iId k)
def itemKey (k : Fin 15) : UInt64 := Item.staticHashKey (txm.iId k)

/-- The lines of the order, from zero. -/
def lines : List (Fin 15) := (List.finRange 15).take txm.numberOfItems.toNat

end TPCCTransactionMarshalled

/-! ## The body of a NewOrder -/

/-- `UPDATE_STOCK` -/
def updateStock (txm : TPCCTransactionMarshalled) (k : Fin 15) (s : Stock) : Stock :=
  let quantity := s.sQuantity - (txm.iQty k).toUInt64
  { s with
    sQuantity := if quantity < 10 then quantity + 91 else quantity
    sYtd := s.sYtd + (txm.iQty k).toUInt64
    sOrderCnt := s.sOrderCnt + 1
    sRemoteCnt := if txm.numberOfRows = 1 then s.sRemoteCnt + 1 else s.sRemoteCnt }

/-- The row of `INSERT_ORDER_LINE`. -/
def orderLine (txm : TPCCTransactionMarshalled) (orderHashKey : UInt64) (k : Fin 15) (i : Item) :
    OrderLine where
  olOId := orderHashKey
  olDId := txm.dId
  olWId := txm.wId
  olIId := (txm.iId k).toUInt64
  olNumber := UInt64.ofNat (k.val + 1)
  olSupplyWId := (txm.iWId k).toUInt64
  olQuantity := (txm.iQty k).toUInt64
  olAmount := (i.iPrice * (txm.iQty k).toFloat32).toUInt64

/-- `UPDATE_STOCK_AND_INSERT_ORDER_LINE` -/
def updateStockAndInsertOrderLine (sc : Scale) (txm : TPCCTransactionMarshalled)
    (orderHashKey : UInt64) (db : Database) (k : Fin 15) : Except Fault Database := do
  let db ← db.updateRow sc .stock (txm.stockKey k) (updateStock txm k)
  let i ← db.readRow sc .item (txm.itemKey k)
  let line := orderLine txm orderHashKey k i
  db.insertRow sc .orderLine line.hashKey line

/-- `Order o` -/
def newOrderRow (txm : TPCCTransactionMarshalled) (oid : UInt64) : Order :=
  ⟨oid, txm.dId, txm.wId, none, none⟩

/-- `NewOrder no`; the order id is narrowed to 32 bits. -/
def newOrderMark (txm : TPCCTransactionMarshalled) (oid : UInt64) : NewOrder :=
  ⟨oid.toUInt32, txm.dId, txm.wId⟩

def takeOrderId (d : District) : District := { d with dNextOId := d.dNextOId + 1 }

/-- `__NEW_ORDER_CASE`, once the order id has been read. -/
def newOrderBody (sc : Scale) (txm : TPCCTransactionMarshalled) (oid : UInt64) (db : Database) :
    Except Fault Database := do
  let o := newOrderRow txm oid
  let no := newOrderMark txm oid
  let db ← db.updateRow sc .district txm.districtKey takeOrderId
  let db ← txm.lines.foldlM (updateStockAndInsertOrderLine sc txm o.hashKey) db
  let db ← db.insertRow sc .order o.hashKey o
  db.insertRow sc .newOrder no.hashKey no

/-! ## The body of a Payment -/

def payDistrict (txm : TPCCTransactionMarshalled) (d : District) : District :=
  { d with dYtd := d.dYtd + txm.hAmount.toUInt64 }

def payCustomer (txm : TPCCTransactionMarshalled) (c : Customer) : Customer :=
  { c with
    cBalance := c.cBalance - txm.hAmount.toFloat32
    cYtdPayment := c.cYtdPayment + txm.hAmount.toUInt64
    cPaymentCnt := c.cPaymentCnt + 1 }

def paymentBody (sc : Scale) (txm : TPCCTransactionMarshalled) (db : Database) :
    Except Fault Database := do
  let db ← db.updateRow sc .district txm.districtKey (payDistrict txm)
  db.updateRow sc .customer txm.customerKey (payCustomer txm)

/-! ## Behaviours -/

def payWarehouse (txm : TPCCTransactionMarshalled) (w : Warehouse) : Warehouse :=
  { w with wYtd := w.wYtd + txm.hAmount.toUInt64 }

/-- `_w->w_ytd += txm->params[52]` -/
def warehouseOpBody (sc : Scale) (txm : TPCCTransactionMarshalled) (db : Database) :
    Except Fault Database :=
  db.updateRow sc .warehouse txm.warehouseKey (payWarehouse txm)

/-- A `when`.  The warehouse is acquired together with the other rows, or by a
`when` of its own. -/
inductive Behaviour where
  | warehouseOp (txm : TPCCTransactionMarshalled)
  | newOrder (withWarehouse : Bool) (txm : TPCCTransactionMarshalled)
  | payment (withWarehouse : Bool) (txm : TPCCTransactionMarshalled)

/-- A row, named by its table and key. -/
abbrev Cown : Type := TableId × UInt64

namespace Behaviour

def txm : Behaviour → TPCCTransactionMarshalled
  | warehouseOp txm => txm
  | newOrder _ txm => txm
  | payment _ txm => txm

def withWarehouse : Behaviour → Bool
  | warehouseOp _ => true
  | newOrder ww _ => ww
  | payment ww _ => ww

/-- The rows that a behaviour acquires besides the warehouse. -/
def others : Behaviour → List Cown
  | warehouseOp _ => []
  | newOrder _ txm =>
    (.district, txm.districtKey) :: (.customer, txm.customerKey) ::
      txm.lines.flatMap fun k => [(.stock, txm.stockKey k), (.item, txm.itemKey k)]
  | payment _ txm => [(.district, txm.districtKey), (.customer, txm.customerKey)]

/-- The rows that a behaviour acquires. -/
def cowns (b : Behaviour) : List Cown :=
  if b.withWarehouse then (.warehouse, b.txm.warehouseKey) :: b.others else b.others

def body (sc : Scale) : Behaviour → Database → Except Fault Database
  | warehouseOp _, db => .ok db
  | newOrder _ txm, db => do
    let d ← db.readRow sc .district txm.districtKey
    newOrderBody sc txm d.dNextOId db
  | payment _ txm, db => paymentBody sc txm db

/-- `WAREHOUSE_OP` -/
def opWarehouse (sc : Scale) (b : Behaviour) (db : Database) : Except Fault Database :=
  if b.withWarehouse then warehouseOpBody sc b.txm db else .ok db

/-- Run a behaviour. -/
def execute (sc : Scale) (b : Behaviour) (db : Database) : Except Fault Database := do
  let db ← b.opWarehouse sc db
  b.body sc db

end Behaviour

/-- `parse_and_process`: the behaviours that a record spawns, in order. -/
def spawn (warehouseSplit : Bool) (txm : TPCCTransactionMarshalled) : List Behaviour :=
  let when' (b : Bool → TPCCTransactionMarshalled → Behaviour) :=
    if warehouseSplit then [.warehouseOp txm, b false txm] else [b true txm]
  if txm.txnType = 0 then
    if 1 ≤ txm.numberOfItems ∧ txm.numberOfItems ≤ 15 then when' .newOrder else []
  else if txm.txnType = 1 then when' .payment
  else []

/-- The behaviours of a log, in the order they are spawned in. -/
def spawned (warehouseSplit : Bool) (log : List TPCCTransactionMarshalled) : List Behaviour :=
  log.flatMap (spawn warehouseSplit)

/-- Run behaviours one after the other. -/
def runBehaviours (sc : Scale) (bs : List Behaviour) (db : Database) : Except Fault Database :=
  bs.foldlM (fun db b => b.execute sc db) db

/-! ## What the bodies do -/

section
variable {sc : Scale} {txm : TPCCTransactionMarshalled} {db db' : Database}

open Database

theorem line_ok_iff {orderHashKey : UInt64} {k : Fin 15} :
    updateStockAndInsertOrderLine sc txm orderHashKey db k = .ok db' ↔
      ∃ s i, db.readRow sc .stock (txm.stockKey k) = .ok s ∧
        db.readRow sc .item (txm.itemKey k) = .ok i ∧
        (db.table .orderLine).cnt < (tsize sc .orderLine).toNat ∧
        (orderLine txm orderHashKey k i).hashKey < tsize sc .orderLine ∧
        db' = (db.put .stock
            ((db.table .stock).set (txm.stockKey k).toNat (updateStock txm k s))).put .orderLine
          ((db.table .orderLine).push (orderLine txm orderHashKey k i).hashKey.toNat
            (orderLine txm orderHashKey k i)) := by
  unfold updateStockAndInsertOrderLine
  simp only [bind_eq_ok, updateRow_ok_iff, insertRow_ok_iff]
  constructor
  · rintro ⟨_, ⟨s, hs, rfl⟩, i, hi, hcnt, hkey, rfl⟩
    rw [readRow_put_of_ne (by decide)] at hi
    rw [put_table_of_ne _ (by decide)] at hcnt ⊢
    exact ⟨s, i, hs, hi, hcnt, hkey, rfl⟩
  · rintro ⟨s, i, hs, hi, hcnt, hkey, rfl⟩
    refine ⟨_, ⟨s, hs, rfl⟩, i, ?_, ?_, hkey, ?_⟩
    · rwa [readRow_put_of_ne (by decide)]
    · rwa [put_table_of_ne _ (by decide)]
    · rw [put_table_of_ne db (by decide : TableId.orderLine ≠ .stock)]

/-- The lines leave the other tables alone. -/
theorem lines_table {orderHashKey : UInt64} {ks : List (Fin 15)}
    (h : ks.foldlM (updateStockAndInsertOrderLine sc txm orderHashKey) db = .ok db')
    {t : TableId} (hs : t ≠ .stock) (hl : t ≠ .orderLine) : db'.table t = db.table t := by
  refine foldlM_keeps (P := fun db' => db'.table t = db.table t) ?_ rfl h
  intro k _ db₁ db₂ h₁ h₂
  obtain ⟨s, i, -, -, -, -, rfl⟩ := line_ok_iff.mp h₂
  rw [put_table_of_ne _ hl, put_table_of_ne _ hs, h₁]

theorem lines_cnt {orderHashKey : UInt64} {ks : List (Fin 15)}
    (h : ks.foldlM (updateStockAndInsertOrderLine sc txm orderHashKey) db = .ok db')
    (t : TableId) :
    (db'.table t).cnt = (db.table t).cnt + if t = .orderLine then ks.length else 0 := by
  induction ks generalizing db with
  | nil =>
    cases foldlM_nil_ok.mp h
    simp
  | cons k ks ih =>
    rw [foldlM_cons_ok] at h
    obtain ⟨db₁, hk, h⟩ := h
    simp only [updateStockAndInsertOrderLine, bind_eq_ok] at hk
    obtain ⟨db₀, hu, i, -, hi⟩ := hk
    rw [ih h, insertRow_cnt hi t, updateRow_cnt hu t, List.length_cons]
    split <;> omega

/-- Everything that the body of a NewOrder has done, but for the stock rows and
the order lines. -/
structure NewOrderDone (sc : Scale) (txm : TPCCTransactionMarshalled) (d : District)
    (db db' : Database) : Prop where
  read : db.readRow sc .district txm.districtKey = .ok d
  district : db'.table .district =
    (db.table .district).set txm.districtKey.toNat (takeOrderId d)
  order : db'.table .order = (db.table .order).push (newOrderRow txm d.dNextOId).hashKey.toNat
    (newOrderRow txm d.dNextOId)
  newOrder : db'.table .newOrder =
    (db.table .newOrder).push (newOrderMark txm d.dNextOId).hashKey.toNat
      (newOrderMark txm d.dNextOId)
  room : (db.table .newOrder).cnt < (tsize sc .newOrder).toNat
  inBounds : (newOrderMark txm d.dNextOId).hashKey < tsize sc .newOrder
  others : ∀ t ∈ [TableId.customer, .item, .history], db'.table t = db.table t

theorem newOrderBody_done {d : District} (hd : db.readRow sc .district txm.districtKey = .ok d)
    (h : newOrderBody sc txm d.dNextOId db = .ok db') : NewOrderDone sc txm d db db' := by
  simp only [newOrderBody, bind_eq_ok] at h
  obtain ⟨db₁, hu, db₂, hl, db₃, ho, hn⟩ := h
  obtain ⟨d', hd', rfl⟩ := updateRow_ok_iff.mp hu
  obtain ⟨-, -, rfl⟩ := insertRow_ok_iff.mp ho
  obtain ⟨hroom, hkey, rfl⟩ := insertRow_ok_iff.mp hn
  obtain rfl : d = d' := Except.ok.inj (hd.symm.trans hd')
  have hlt : ∀ t, t ≠ .stock → t ≠ .orderLine → db₂.table t = _ := fun t => lines_table hl
  constructor
  · exact hd
  · rw [put_table_of_ne _ (by decide), put_table_of_ne _ (by decide),
      hlt .district (by decide) (by decide), put_table_self]
  · rw [put_table_of_ne _ (by decide), put_table_self, hlt .order (by decide) (by decide),
      put_table_of_ne _ (by decide)]
  · rw [put_table_self, put_table_of_ne _ (by decide), hlt .newOrder (by decide) (by decide),
      put_table_of_ne _ (by decide)]
  · rwa [put_table_of_ne _ (by decide), hlt .newOrder (by decide) (by decide),
      put_table_of_ne _ (by decide)] at hroom
  · exact hkey
  · intro t ht
    simp only [List.mem_cons, List.not_mem_nil, or_false] at ht
    rw [put_table_of_ne _ (by grind), put_table_of_ne _ (by grind), hlt t (by grind) (by grind),
      put_table_of_ne _ (by grind)]

/-- The operation on the warehouse is one update at most. -/
theorem opWarehouse_cases {b : Behaviour} (h : b.opWarehouse sc db = .ok db') :
    db' = db ∨ db.updateRow sc .warehouse b.txm.warehouseKey (payWarehouse b.txm) = .ok db' := by
  unfold Behaviour.opWarehouse at h
  split at h
  · exact .inr h
  · exact .inl (Except.ok.inj h).symm

theorem opWarehouse_table {b : Behaviour} (h : b.opWarehouse sc db = .ok db') {t : TableId}
    (ht : t ≠ .warehouse) : db'.table t = db.table t := by
  rcases opWarehouse_cases h with rfl | h
  · rfl
  · obtain ⟨w, -, rfl⟩ := updateRow_ok_iff.mp h
    exact put_table_of_ne db ht _

theorem opWarehouse_cnt {b : Behaviour} (h : b.opWarehouse sc db = .ok db') (t : TableId) :
    (db'.table t).cnt = (db.table t).cnt := by
  rcases opWarehouse_cases h with rfl | h
  · rfl
  · exact updateRow_cnt h t

theorem opWarehouse_extends {b : Behaviour} (h : b.opWarehouse sc db = .ok db') :
    db.Extends db' := by
  rcases opWarehouse_cases h with rfl | h
  · exact .refl db'
  · exact updateRow_extends h

/-- Running a behaviour is running its body on a database that differs in the
warehouses at most. -/
theorem execute_body {b : Behaviour} (h : b.execute sc db = .ok db') :
    ∃ db₁, (∀ t, t ≠ .warehouse → db₁.table t = db.table t) ∧ b.body sc db₁ = .ok db' := by
  simp only [Behaviour.execute, bind_eq_ok] at h
  obtain ⟨db₁, hw, hb⟩ := h
  exact ⟨db₁, fun t => opWarehouse_table hw, hb⟩

theorem readRow_congr {db₁ : Database} {t : TableId} (h : db₁.table t = db.table t)
    (key : UInt64) : db₁.readRow sc t key = db.readRow sc t key := by
  unfold readRow
  rw [h]

theorem execute_newOrder {ww : Bool} (h : (Behaviour.newOrder ww txm).execute sc db = .ok db') :
    ∃ d, NewOrderDone sc txm d db db' := by
  obtain ⟨db₁, h₁, h⟩ := execute_body h
  simp only [Behaviour.body, bind_eq_ok] at h
  obtain ⟨d, hd, h⟩ := h
  obtain ⟨hread, hdist, hord, hnew, hroom, hkey, hothers⟩ := newOrderBody_done hd h
  rw [readRow_congr (h₁ .district (by decide))] at hread
  rw [h₁ .district (by decide)] at hdist
  rw [h₁ .order (by decide)] at hord
  rw [h₁ .newOrder (by decide)] at hnew hroom
  refine ⟨d, hread, hdist, hord, hnew, hroom, hkey, fun t ht => ?_⟩
  rw [hothers t ht, h₁ t (by rintro rfl; simp at ht)]

/-- Everything that the body of a Payment has done. -/
structure PaymentDone (sc : Scale) (txm : TPCCTransactionMarshalled) (d : District) (c : Customer)
    (db db' : Database) : Prop where
  readDistrict : db.readRow sc .district txm.districtKey = .ok d
  readCustomer : db.readRow sc .customer txm.customerKey = .ok c
  district : db'.table .district =
    (db.table .district).set txm.districtKey.toNat (payDistrict txm d)
  customer : db'.table .customer =
    (db.table .customer).set txm.customerKey.toNat (payCustomer txm c)
  others : ∀ t, t ≠ .warehouse → t ≠ .district → t ≠ .customer → db'.table t = db.table t

theorem execute_payment {ww : Bool} (h : (Behaviour.payment ww txm).execute sc db = .ok db') :
    ∃ d c, PaymentDone sc txm d c db db' := by
  obtain ⟨db₁, h₁, h⟩ := execute_body h
  simp only [Behaviour.body, paymentBody, bind_eq_ok] at h
  obtain ⟨db₂, hd', hc'⟩ := h
  obtain ⟨d, hd, rfl⟩ := updateRow_ok_iff.mp hd'
  obtain ⟨c, hc, rfl⟩ := updateRow_ok_iff.mp hc'
  rw [readRow_put_of_ne (by decide), readRow_congr (h₁ .customer (by decide))] at hc
  rw [readRow_congr (h₁ .district (by decide))] at hd
  refine ⟨d, c, hd, hc, ?_, ?_, ?_⟩
  · rw [put_table_of_ne _ (by decide), put_table_self, h₁ .district (by decide)]
  · rw [put_table_self, put_table_of_ne _ (by decide), h₁ .customer (by decide)]
  · intro t hw hd hc
    rw [put_table_of_ne _ hc, put_table_of_ne _ hd, h₁ t hw]

theorem execute_warehouseOp (h : (Behaviour.warehouseOp txm).execute sc db = .ok db') :
    ∀ t, t ≠ .warehouse → db'.table t = db.table t := by
  obtain ⟨db₁, h₁, h⟩ := execute_body h
  cases h
  exact h₁

/-! ## What the bodies count and keep -/

/-- Insertions that a behaviour makes into a table. -/
def Behaviour.inserts : Behaviour → TableId → Nat
  | .newOrder _ txm, .orderLine => txm.lines.length
  | .newOrder _ _, .order => 1
  | .newOrder _ _, .newOrder => 1
  | _, _ => 0

theorem execute_cnt {b : Behaviour} (h : b.execute sc db = .ok db') (t : TableId) :
    (db'.table t).cnt = (db.table t).cnt + b.inserts t := by
  simp only [Behaviour.execute, bind_eq_ok] at h
  obtain ⟨db₁, hw, hb⟩ := h
  rw [← opWarehouse_cnt hw t]
  cases b with
  | warehouseOp txm =>
    cases hb
    rfl
  | payment ww txm =>
    simp only [Behaviour.body, paymentBody, bind_eq_ok] at hb
    obtain ⟨db₂, hd, hc⟩ := hb
    rw [updateRow_cnt hc t, updateRow_cnt hd t]
    rfl
  | newOrder ww txm =>
    simp only [Behaviour.body, newOrderBody, bind_eq_ok] at hb
    obtain ⟨d, -, db₂, hu, db₃, hl, db₄, ho, hn⟩ := hb
    rw [insertRow_cnt hn t, insertRow_cnt ho t, lines_cnt hl t, updateRow_cnt hu t]
    cases t <;> rfl

theorem lines_extends {orderHashKey : UInt64} {ks : List (Fin 15)}
    (h : ks.foldlM (updateStockAndInsertOrderLine sc txm orderHashKey) db = .ok db') :
    db.Extends db' := by
  refine foldlM_keeps (P := db.Extends) ?_ (.refl db) h
  intro k _ s t hs hk
  simp only [updateStockAndInsertOrderLine, bind_eq_ok] at hk
  obtain ⟨s', hu, i, -, hi⟩ := hk
  exact hs.trans ((updateRow_extends hu).trans (insertRow_extends hi))

theorem execute_extends {b : Behaviour} (h : b.execute sc db = .ok db') : db.Extends db' := by
  simp only [Behaviour.execute, bind_eq_ok] at h
  obtain ⟨db₁, hw, hb⟩ := h
  refine (opWarehouse_extends hw).trans ?_
  cases b with
  | warehouseOp txm =>
    cases hb
    exact .refl db'
  | payment ww txm =>
    simp only [Behaviour.body, paymentBody, bind_eq_ok] at hb
    obtain ⟨db₂, hd, hc⟩ := hb
    exact (updateRow_extends hd).trans (updateRow_extends hc)
  | newOrder ww txm =>
    simp only [Behaviour.body, newOrderBody, bind_eq_ok] at hb
    obtain ⟨d, -, db₂, hu, db₃, hl, db₄, ho, hn⟩ := hb
    exact (updateRow_extends hu).trans
      ((lines_extends hl).trans ((insertRow_extends ho).trans (insertRow_extends hn)))

end

end Doradd.Tpcc
