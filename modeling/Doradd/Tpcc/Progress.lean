import Doradd.Tpcc.Transaction

/-!
# Valid transactions go through

A record is valid if its ids are in range.  Its keys are then below the sizes of
the tables that they index, and a behaviour can only be stopped by an insertion.

* `newOrderBody_eq`: a NewOrder whose order id leaves its keys in bounds goes as
  far as its last insertion;
* `execute_ok_or_full`: nothing but a full table of new orders can stop it;
* `execute_next`: the order ids that it takes.
-/

namespace Doradd.Tpcc

open Lib

/-! ## Valid records -/

/-- The ids of the rows that every transaction acquires are in range. -/
structure TPCCTransactionMarshalled.KeysValid (sc : Scale) (txm : TPCCTransactionMarshalled) :
    Prop where
  w : Within sc.numWarehouses.toNat txm.wId
  d : Within 10 txm.dId
  c : Within 3000 txm.cId

/-- So are those of the items and of their supply warehouses. -/
def TPCCTransactionMarshalled.ItemsValid (sc : Scale) (txm : TPCCTransactionMarshalled) : Prop :=
  ∀ k ∈ txm.lines, Within 100000 (txm.iId k) ∧ Within sc.numWarehouses.toNat (txm.iWId k)

/-- A NewOrder of one to fifteen items or a Payment, with valid keys. -/
structure TPCCTransactionMarshalled.Valid (sc : Scale) (txm : TPCCTransactionMarshalled) :
    Prop where
  type : txm.txnType = 0 ∨ txm.txnType = 1
  keys : txm.KeysValid sc
  count : txm.txnType = 0 → 1 ≤ txm.numberOfItems ∧ txm.numberOfItems ≤ 15
  items : txm.txnType = 0 → txm.ItemsValid sc

/-- The district of a valid record. -/
def TPCCTransactionMarshalled.KeysValid.district {sc : Scale} {txm : TPCCTransactionMarshalled}
    (h : txm.KeysValid sc) : DistrictId sc := ⟨txm.wId, txm.dId, h.w, h.d⟩

/-- A behaviour of a valid record. -/
def Behaviour.Valid (sc : Scale) : Behaviour → Prop
  | .newOrder _ txm => txm.KeysValid sc ∧ txm.ItemsValid sc
  | b => b.txm.KeysValid sc

section

variable {sc : Scale} {txm : TPCCTransactionMarshalled} {b : Behaviour} {db : Database}

theorem Behaviour.Valid.keys (h : b.Valid sc) : b.txm.KeysValid sc := by
  cases b with
  | warehouseOp txm => exact h
  | newOrder ww txm => exact h.1
  | payment ww txm => exact h

theorem spawn_valid {split : Bool} (h : txm.Valid sc) (hb : b ∈ spawn split txm) :
    b.Valid sc := by
  unfold spawn at hb
  rcases h.type with ht | ht
  · have hv : txm.KeysValid sc ∧ txm.ItemsValid sc := ⟨h.keys, h.items ht⟩
    rw [if_pos ht, if_pos (h.count ht)] at hb
    split at hb
    · simp only [List.mem_cons, List.not_mem_nil, or_false] at hb
      rcases hb with rfl | rfl
      · exact h.keys
      · exact hv
    · cases List.mem_singleton.mp hb
      exact hv
  · rw [if_neg (by rw [ht]; decide), if_pos ht] at hb
    split at hb
    · simp only [List.mem_cons, List.not_mem_nil, or_false] at hb
      rcases hb with rfl | rfl <;> exact h.keys
    · cases List.mem_singleton.mp hb
      exact h.keys

theorem spawned_valid {split : Bool} {log : List TPCCTransactionMarshalled}
    (h : ∀ txm ∈ log, txm.Valid sc) : ∀ b ∈ spawned split log, b.Valid sc := by
  intro b hb
  obtain ⟨txm, hmem, hb⟩ := List.mem_flatMap.mp hb
  exact spawn_valid (h txm hmem) hb

theorem lines_length_le (txm : TPCCTransactionMarshalled) : txm.lines.length ≤ 15 := by
  unfold TPCCTransactionMarshalled.lines
  rw [List.length_take, List.length_finRange]
  exact Nat.min_le_right _ _

/-! ## Keys in bounds -/

namespace TPCCTransactionMarshalled.KeysValid

variable (h : txm.KeysValid sc)
include h

theorem warehouseKey_toNat : txm.warehouseKey.toNat = txm.wId.toNat - 1 :=
  Tpcc.warehouseKey_toNat h.w.1

theorem warehouseKey_lt : txm.warehouseKey.toNat < capacity sc.numWarehouses.toNat .warehouse := by
  have hw := h.w.1
  have hw' := h.w.2
  rw [h.warehouseKey_toNat]
  simp only [capacity]
  omega

theorem districtKey_toNat : txm.districtKey.toNat = h.district.index :=
  Tpcc.districtKey_toNat h.district

theorem districtKey_lt : txm.districtKey.toNat < capacity sc.numWarehouses.toNat .district := by
  rw [h.districtKey_toNat]
  exact h.district.index_lt

theorem customerKey_lt : txm.customerKey.toNat < capacity sc.numWarehouses.toNat .customer := by
  have hlt := h.district.index_lt
  have hc := h.c.2
  have he : txm.customerKey.toNat = h.district.index * 3000 + (txm.cId.toNat - 1) :=
    customerKey_toNat h.district h.c
  simp only [capacity]
  omega

/-- The key of the order that the district is about to hand out. -/
theorem orderKey_toNat {oid : UInt64} (h₁ : 1 ≤ oid.toNat) (h₂ : oid.toNat < 2 ^ 63) :
    (newOrderRow txm oid).hashKey.toNat = h.district.index * 6840 + (oid.toNat - 1) :=
  Tpcc.orderKey_toNat h.district (newOrderRow txm oid) rfl rfl h₁ h₂

theorem newOrderKey_toNat (oid : UInt64) :
    (newOrderMark txm oid).hashKey.toNat = h.district.index * 6840 + (oid.toUInt32 - 1).toNat :=
  Tpcc.newOrderKey_toNat h.district (newOrderMark txm oid) rfl rfl

theorem orderLineKey_toNat (x : UInt64) (k : Fin 15) (i : Item) :
    (orderLine txm x k i).hashKey.toNat =
      (h.district.index * 6840 + (x.toUInt32 - 1).toNat) * 15 + k.val := by
  have hk : (orderLine txm x k i).olNumber.toNat = k.val + 1 := by
    have := k.isLt
    exact UInt64.toNat_ofNat_of_lt' (by simp only [UInt64.size]; omega)
  rw [Tpcc.orderLineKey_toNat h.district (orderLine txm x k i) rfl rfl (by omega) (by omega), hk]
  rfl

end TPCCTransactionMarshalled.KeysValid

theorem TPCCTransactionMarshalled.ItemsValid.stockKey_lt (h : txm.ItemsValid sc) {k : Fin 15}
    (hk : k ∈ txm.lines) : (txm.stockKey k).toNat < capacity sc.numWarehouses.toNat .stock := by
  obtain ⟨hi, hw⟩ := h k hk
  have he : (txm.stockKey k).toNat =
      ((txm.iWId k).toNat - 1) * 100000 + ((txm.iId k).toNat - 1) := stockKey_toNat hw hi
  obtain ⟨hi, hi'⟩ := hi
  obtain ⟨hw, hw'⟩ := hw
  simp only [capacity]
  omega

theorem TPCCTransactionMarshalled.ItemsValid.itemKey_lt (h : txm.ItemsValid sc) {k : Fin 15}
    (hk : k ∈ txm.lines) : (txm.itemKey k).toNat < capacity sc.numWarehouses.toNat .item := by
  obtain ⟨hi, hi'⟩ := (h k hk).1
  have he : (txm.itemKey k).toNat = (txm.iId k).toNat - 1 := itemKey_toNat hi
  simp only [capacity]
  omega

theorem toNat_toUInt32_sub_one {x : UInt64} (h : 1 ≤ x.toNat) (h' : x.toNat < 2 ^ 32) :
    (x.toUInt32 - 1).toNat = x.toNat - 1 := by
  have he : x.toUInt32.toNat = x.toNat := by
    rw [UInt64.toNat_toUInt32]
    exact Nat.mod_eq_of_lt h'
  rw [toNat_sub_one (by omega), he]

/-- Narrowing an id to 32 bits does not make its predecessor larger. -/
theorem toUInt32_sub_one_le {x : UInt64} (h : 1 ≤ x.toNat) :
    (x.toUInt32 - 1).toNat ≤ x.toNat - 1 := by
  by_cases h0 : 1 ≤ x.toUInt32.toNat
  · have hle : x.toUInt32.toNat ≤ x.toNat := by
      rw [UInt64.toNat_toUInt32]
      exact Nat.mod_le _ _
    rw [toNat_sub_one h0]
    omega
  · rw [UInt64.toNat_toUInt32] at h0
    have := (x.toUInt32 - 1).toNat_lt
    omega

/-! ## Going through -/

def Behaviour.isNewOrder : Behaviour → Bool
  | .newOrder _ _ => true
  | _ => false

/-- The lines go through if the table of order lines has room for them. -/
theorem lines_ok (hi : txm.ItemsValid sc) {x : UInt64}
    (hx : ∀ k i, (orderLine txm x k i).hashKey.toNat < capacity sc.numWarehouses.toNat .orderLine)
    (hp : db.Populated sc)
    (hroom : (db.table .orderLine).cnt + txm.lines.length ≤
      capacity sc.numWarehouses.toNat .orderLine) :
    ∃ db', txm.lines.foldlM (updateStockAndInsertOrderLine sc txm x) db = .ok db' := by
  have hrun := foldlM_succeeds (updateStockAndInsertOrderLine sc txm x)
    (fun db ks => db.Populated sc ∧ (∀ k ∈ ks, k ∈ txm.lines) ∧
      (db.table .orderLine).cnt + ks.length ≤ capacity sc.numWarehouses.toNat .orderLine) ?_
    ⟨hp, fun _ hk => hk, hroom⟩
  · obtain ⟨db', h, -⟩ := hrun
    exact ⟨db', h⟩
  · rintro k ks db ⟨hp, hks, hroom⟩
    have hk := hks k List.mem_cons_self
    obtain ⟨s, hs⟩ := hp.readRow (by decide) (hi.stockKey_lt hk)
    obtain ⟨i, hitem⟩ := hp.readRow (by decide) (hi.itemKey_lt hk)
    have hcnt : (db.table .orderLine).cnt < (tsize sc .orderLine).toNat := by
      rw [tsize_toNat]
      simp only [List.length_cons] at hroom
      omega
    have hstep := line_ok_iff.mpr ⟨s, i, hs, hitem, hcnt, lt_tsize (hx k i), rfl⟩
    have hone : ([k] : List (Fin 15)).foldlM (updateStockAndInsertOrderLine sc txm x) db = .ok _ :=
      foldlM_cons_ok.mpr ⟨_, hstep, rfl⟩
    refine ⟨_, hstep, hp.mono (lines_extends hone),
      fun j hj => hks j (List.mem_cons_of_mem k hj), ?_⟩
    rw [lines_cnt hone]
    simp only [List.length_cons, List.length_nil] at hroom ⊢
    simp only [if_true]
    omega

/-- What the body of a NewOrder needs besides rows: an order id that leaves its
keys in bounds, and room for its lines and for the order.  The first id of the
first district would be encoded as zero, from which the key of a line wraps. -/
structure NewOrderFits (sc : Scale) (db : Database) (txm : TPCCTransactionMarshalled)
    (oid : UInt64) : Prop where
  pos : 2 ≤ oid.toNat
  key : txm.districtKey.toNat * 6840 + (oid.toNat - 1) < sc.numWarehouses.toNat * 1422000
  lines : (db.table .orderLine).cnt + txm.lines.length ≤ capacity sc.numWarehouses.toNat .orderLine
  order : (db.table .order).cnt < capacity sc.numWarehouses.toNat .order

/-- The keys of the order, of its mark and of its lines are in bounds. -/
theorem NewOrderFits.keys_lt {oid : UInt64} (hv : txm.KeysValid sc)
    (h : NewOrderFits sc db txm oid) :
    (newOrderRow txm oid).hashKey.toNat < capacity sc.numWarehouses.toNat .order ∧
      (newOrderMark txm oid).hashKey.toNat < capacity sc.numWarehouses.toNat .newOrder ∧
      ∀ k i, (orderLine txm (newOrderRow txm oid).hashKey k i).hashKey.toNat <
        capacity sc.numWarehouses.toNat .orderLine := by
  have hlt := sc.lt_42950
  have hD := hv.district.index_lt
  have hpos := h.pos
  have hkey := h.key
  rw [hv.districtKey_toNat] at hkey
  have ho := hv.orderKey_toNat (by omega : 1 ≤ oid.toNat) (by omega)
  have hn := hv.newOrderKey_toNat oid
  have hn' := toUInt32_sub_one_le (by omega : 1 ≤ oid.toNat)
  simp only [capacity]
  refine ⟨by omega, by omega, fun k i => ?_⟩
  have hl := hv.orderLineKey_toNat (newOrderRow txm oid).hashKey k i
  have hl' := toUInt32_sub_one_le (by omega : 1 ≤ (newOrderRow txm oid).hashKey.toNat)
  have hk := k.isLt
  omega

/-- **A NewOrder goes as far as its last insertion** if the keys of its lines and of
the order are in bounds and there is room for them. -/
theorem newOrderBody_eq (hv : txm.KeysValid sc) (hi : txm.ItemsValid sc) (hp : db.Populated sc)
    {oid : UInt64}
    (ho : (newOrderRow txm oid).hashKey.toNat < capacity sc.numWarehouses.toNat .order)
    (hl : ∀ k i, (orderLine txm (newOrderRow txm oid).hashKey k i).hashKey.toNat <
      capacity sc.numWarehouses.toNat .orderLine)
    (hlines : (db.table .orderLine).cnt + txm.lines.length ≤
      capacity sc.numWarehouses.toNat .orderLine)
    (horder : (db.table .order).cnt < capacity sc.numWarehouses.toNat .order) :
    ∃ db₁ : Database, db₁.table .newOrder = db.table .newOrder ∧
      newOrderBody sc txm oid db =
        db₁.insertRow sc .newOrder (newOrderMark txm oid).hashKey (newOrderMark txm oid) := by
  obtain ⟨d, hd⟩ := hp.readRow (by decide) hv.districtKey_lt
  have hu : db.updateRow sc .district txm.districtKey takeOrderId = .ok _ :=
    Database.updateRow_ok_iff.mpr ⟨d, hd, rfl⟩
  rw [← Database.updateRow_cnt hu] at hlines
  obtain ⟨db₂, hrun⟩ := lines_ok hi hl (hp.mono (Database.updateRow_extends hu)) hlines
  have hcnt : (db₂.table .order).cnt < (tsize sc .order).toNat := by
    rw [lines_cnt hrun, Database.updateRow_cnt hu, if_neg (by decide), Nat.add_zero, tsize_toNat]
    exact horder
  obtain ⟨db₃, hins, h₃⟩ : ∃ db₃ : Database,
      db₂.insertRow sc .order (newOrderRow txm oid).hashKey (newOrderRow txm oid) = .ok db₃ ∧
        db₃.table .newOrder = db.table .newOrder := by
    refine ⟨_, Database.insertRow_ok_iff.mpr ⟨hcnt, lt_tsize ho, rfl⟩, ?_⟩
    rw [Database.put_table_of_ne _ (by decide), lines_table hrun (by decide) (by decide),
      Database.put_table_of_ne _ (by decide)]
  refine ⟨db₃, h₃, ?_⟩
  unfold newOrderBody
  rw [bind_of_ok hu, bind_of_ok hrun, bind_of_ok hins]

theorem opWarehouse_ok (hv : b.Valid sc) (hp : db.Populated sc) :
    ∃ db', b.opWarehouse sc db = .ok db' := by
  unfold Behaviour.opWarehouse
  split
  · obtain ⟨w, hw⟩ := hp.readRow (by decide) hv.keys.warehouseKey_lt
    exact ⟨_, Database.updateRow_ok_iff.mpr ⟨w, hw, rfl⟩⟩
  · exact ⟨db, rfl⟩

/-- So does the behaviour, whatever it does to the warehouse. -/
theorem execute_newOrder_eq {ww : Bool} (hv : (Behaviour.newOrder ww txm).Valid sc)
    (hp : db.Populated sc) {d : District} (hd : db.readRow sc .district txm.districtKey = .ok d)
    (ho : (newOrderRow txm d.dNextOId).hashKey.toNat < capacity sc.numWarehouses.toNat .order)
    (hl : ∀ k i, (orderLine txm (newOrderRow txm d.dNextOId).hashKey k i).hashKey.toNat <
      capacity sc.numWarehouses.toNat .orderLine)
    (hlines : (db.table .orderLine).cnt + txm.lines.length ≤
      capacity sc.numWarehouses.toNat .orderLine)
    (horder : (db.table .order).cnt < capacity sc.numWarehouses.toNat .order) :
    ∃ db₁ : Database, db₁.table .newOrder = db.table .newOrder ∧
      (Behaviour.newOrder ww txm).execute sc db =
        db₁.insertRow sc .newOrder (newOrderMark txm d.dNextOId).hashKey
          (newOrderMark txm d.dNextOId) := by
  obtain ⟨db₀, hw⟩ := opWarehouse_ok hv hp
  have h₀ : ∀ t, t ≠ .warehouse → db₀.table t = db.table t := fun t => opWarehouse_table hw
  rw [← readRow_congr (h₀ .district (by decide))] at hd
  rw [← h₀ .orderLine (by decide)] at hlines
  rw [← h₀ .order (by decide)] at horder
  obtain ⟨db₁, h₁, hbody⟩ :=
    newOrderBody_eq hv.1 hv.2 (hp.mono (opWarehouse_extends hw)) ho hl hlines horder
  refine ⟨db₁, h₁.trans (h₀ .newOrder (by decide)), ?_⟩
  rw [← hbody]
  exact (bind_of_ok hw _).trans (bind_of_ok hd _)

/-- Behaviours that insert nothing go through. -/
theorem execute_ok (hv : b.Valid sc) (hp : db.Populated sc) (hb : b.isNewOrder = false) :
    ∃ db', b.execute sc db = .ok db' := by
  obtain ⟨db₁, hw⟩ := opWarehouse_ok hv hp
  have hp₁ : db₁.Populated sc := hp.mono (opWarehouse_extends hw)
  have hexec : b.execute sc db = b.body sc db₁ := bind_of_ok hw _
  rw [hexec]
  cases b with
  | newOrder ww txm => exact absurd hb.symm Bool.false_ne_true
  | warehouseOp txm => exact ⟨db₁, rfl⟩
  | payment ww txm =>
    have hv : txm.KeysValid sc := hv
    obtain ⟨d, hd⟩ := hp₁.readRow (by decide) hv.districtKey_lt
    have hu : db₁.updateRow sc .district txm.districtKey (payDistrict txm) = .ok _ :=
      Database.updateRow_ok_iff.mpr ⟨d, hd, rfl⟩
    have hp₂ := hp₁.mono (Database.updateRow_extends hu)
    obtain ⟨c, hc⟩ := hp₂.readRow (by decide) hv.customerKey_lt
    exact ⟨_, bind_eq_ok.mpr ⟨_, hu, Database.updateRow_ok_iff.mpr ⟨c, hc, rfl⟩⟩⟩

/-- What a behaviour needs besides rows. -/
def Behaviour.Fits (sc : Scale) (db : Database) : Behaviour → Prop
  | .newOrder _ txm =>
    ∃ d, db.readRow sc .district txm.districtKey = .ok d ∧ NewOrderFits sc db txm d.dNextOId
  | _ => True

/-- **A behaviour goes through, or is stopped by a full table of new orders.** -/
theorem execute_ok_or_full (hv : b.Valid sc) (hp : db.Populated sc) (hf : b.Fits sc db) :
    (∃ db', b.execute sc db = .ok db') ∨
      b.isNewOrder ∧ b.execute sc db = .error .indexIsFull ∧
        capacity sc.numWarehouses.toNat .newOrder ≤ (db.table .newOrder).cnt := by
  cases b with
  | warehouseOp txm => exact .inl (execute_ok hv hp rfl)
  | payment ww txm => exact .inl (execute_ok hv hp rfl)
  | newOrder ww txm =>
    obtain ⟨d, hd, hfit⟩ := hf
    obtain ⟨ho, hn, hl⟩ := hfit.keys_lt hv.1
    obtain ⟨db₁, h₁, hexec⟩ :=
      execute_newOrder_eq hv hp hd ho hl hfit.lines hfit.order
    rw [hexec, ← h₁, ← tsize_toNat]
    unfold Database.insertRow
    rw [if_pos (lt_tsize hn)]
    split
    · exact .inl ⟨_, rfl⟩
    · rename_i hfull
      exact .inr ⟨rfl, rfl, Nat.not_lt.mp hfull⟩

/-! ## Order ids -/

/-- The behaviours that take an order id from a district. -/
def DistrictId.orders (D : DistrictId sc) : Behaviour → Bool
  | .newOrder _ txm => txm.wId = D.wId ∧ txm.dId = D.dId
  | _ => false

theorem DistrictId.orders_iff {D : DistrictId sc} {ww : Bool} (hk : txm.KeysValid sc) :
    D.orders (.newOrder ww txm) = true ↔ txm.districtKey.toNat = D.index := by
  rw [hk.districtKey_toNat]
  simp only [DistrictId.orders, decide_eq_true_eq]
  constructor
  · rintro ⟨hw, hd⟩
    have he : hk.district = D := by
      cases D
      cases hw
      cases hd
      rfl
    rw [he]
  · intro h
    have he := DistrictId.eq_of_index_eq h
    exact ⟨congrArg DistrictId.wId he, congrArg DistrictId.dId he⟩

theorem DistrictId.orders_isNewOrder {D : DistrictId sc} (h : D.orders b = true) :
    b.isNewOrder = true := by
  cases b with
  | newOrder ww txm => rfl
  | warehouseOp txm => exact h
  | payment ww txm => exact h

/-- **A NewOrder takes one id from its own district; nothing else does.** -/
theorem execute_next {db' : Database} (hv : b.Valid sc) (h : b.execute sc db = .ok db')
    (D : DistrictId sc) {d : District} (hd : (db.table .district).map D.index = some d) :
    ∃ d' : District, (db'.table .district).map D.index = some d' ∧
      d'.dNextOId = if D.orders b then d.dNextOId + 1 else d.dNextOId := by
  cases b with
  | warehouseOp txm =>
    rw [execute_warehouseOp h .district (by decide)]
    exact ⟨d, hd, rfl⟩
  | payment ww txm =>
    obtain ⟨d₀, c, hdone⟩ := execute_payment h
    rw [hdone.district]
    by_cases hk : D.index = txm.districtKey.toNat
    · have hread := (Database.readRow_ok_iff.mp hdone.readDistrict).2
      rw [← hk, hd, Option.some.injEq] at hread
      rw [hk, Table.set_map_self, ← hread]
      exact ⟨_, rfl, rfl⟩
    · rw [Table.set_map_of_ne _ hk]
      exact ⟨d, hd, rfl⟩
  | newOrder ww txm =>
    obtain ⟨d₀, hdone⟩ := execute_newOrder h
    rw [hdone.district]
    by_cases hk : D.index = txm.districtKey.toNat
    · have hread := (Database.readRow_ok_iff.mp hdone.read).2
      rw [← hk, hd, Option.some.injEq] at hread
      rw [if_pos ((DistrictId.orders_iff hv.1).mpr hk.symm), hk, Table.set_map_self, ← hread]
      exact ⟨_, rfl, rfl⟩
    · rw [Table.set_map_of_ne _ hk, if_neg fun ho => hk ((DistrictId.orders_iff hv.1).mp ho).symm]
      exact ⟨d, hd, rfl⟩

end

/-! ## An example record -/

/-- A NewOrder of one item by customer 1 of district `(1, d)`. -/
def exampleNewOrder (d : UInt32) : TPCCTransactionMarshalled where
  txnType := 0
  params := Vector.ofFn fun i =>
    if i.val = 1 ∨ i.val = 5 then d
    else if i.val = 0 ∨ i.val = 2 ∨ i.val = 20 ∨ i.val = 35 ∨ i.val = 50 then 1
    else 0

theorem exampleNewOrder_params (d : UInt32) {i : Nat} (h : i < 65) :
    (exampleNewOrder d).params[i] = if i = 1 ∨ i = 5 then d
      else if i = 0 ∨ i = 2 ∨ i = 20 ∨ i = 35 ∨ i = 50 then 1 else 0 :=
  Vector.getElem_ofFn h

theorem exampleNewOrder_lines (d : UInt32) : (exampleNewOrder d).lines = [0] := by
  have hn : (exampleNewOrder d).numberOfItems = 1 := exampleNewOrder_params d (by decide)
  unfold TPCCTransactionMarshalled.lines
  rw [hn]
  rfl

theorem exampleNewOrder_valid {d : UInt32} (h : Within 10 d) :
    (exampleNewOrder d).Valid Scale.one where
  type := .inl rfl
  keys := by
    have hw : (exampleNewOrder d).wId = 1 := exampleNewOrder_params d (by decide)
    have hd : (exampleNewOrder d).dId = d := exampleNewOrder_params d (by decide)
    have hc : (exampleNewOrder d).cId = 1 := exampleNewOrder_params d (by decide)
    refine ⟨?_, ?_, ?_⟩
    · rw [hw]
      decide
    · rwa [hd]
    · rw [hc]
      decide
  count := by
    intro _
    have hn : (exampleNewOrder d).numberOfItems = 1 := exampleNewOrder_params d (by decide)
    rw [hn]
    decide
  items := by
    intro _ k hk
    rw [exampleNewOrder_lines, List.mem_singleton] at hk
    subst hk
    have hi : (exampleNewOrder d).iId 0 = d := exampleNewOrder_params d (by decide)
    have hw : (exampleNewOrder d).iWId 0 = 1 := exampleNewOrder_params d (by decide)
    rw [hi, hw]
    exact ⟨⟨h.1, h.2.trans (by decide)⟩, by decide⟩

end Doradd.Tpcc
