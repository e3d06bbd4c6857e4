import Doradd.Tpcc.Generator

/-!
# The primary keys of generated rows

A row is generated for every primary key.  Its slot has a number, the mixed-radix
number of the primary key, which the code computes twice: to insert the row and
to look it up.

* `lookupKey_toNat`, `insertKey_toNat`: both computations give the number;
* `index_lt`, `index_inj`: the numbers are below the size of the table and tell
  the primary keys apart;
* `exists_index`: in the tables that only the generator fills, no number is left
  out.
-/

namespace Doradd.Tpcc

/-- The primary keys that a row is generated for, table by table.  How many lines
an order has is drawn. -/
inductive PrimaryKey (sc : Scale) (draws : Draws) : TableId → Type where
  | warehouse (w : UInt32) (hw : Within sc.numWarehouses.toNat w) : PrimaryKey sc draws .warehouse
  | district (D : DistrictId sc) : PrimaryKey sc draws .district
  | customer (D : DistrictId sc) (c : UInt32) (hc : Within 3000 c) : PrimaryKey sc draws .customer
  | orderLine (D : DistrictId sc) (o : UInt32) (ho : Within 3000 o) (n : UInt32)
      (hn : Within (draws.olCnt D.wId D.dId o).toNat n) : PrimaryKey sc draws .orderLine
  | stock (w : UInt32) (hw : Within sc.numWarehouses.toNat w) (i : UInt32) (hi : Within 100000 i) :
      PrimaryKey sc draws .stock
  | order (D : DistrictId sc) (o : UInt32) (ho : Within 3000 o) : PrimaryKey sc draws .order
  | item (i : UInt32) (hi : Within 100000 i) : PrimaryKey sc draws .item
  | history (D : DistrictId sc) (c : UInt32) (hc : Within 3000 c) : PrimaryKey sc draws .history

namespace PrimaryKey

variable {sc : Scale} {draws : Draws} {t : TableId}

/-- The row that is generated. -/
def row {t : TableId} : PrimaryKey sc draws t → Row t
  | warehouse w _ => (⟨w, 300000⟩ : Warehouse)
  | district D => (⟨D.dId, D.wId, 300000, 3001⟩ : District)
  | customer D c _ => (⟨c, D.dId, D.wId, -10, 10, 1⟩ : Customer)
  | orderLine D o _ n _ =>
    ({ olOId := o.toUInt64, olDId := D.dId, olWId := D.wId
       olIId := draws.lineItem D.wId D.dId o n, olNumber := n.toUInt64
       olSupplyWId := D.wId.toUInt64, olQuantity := 5
       olAmount := if 2100 < o then 0 else draws.amount D.wId D.dId o n / 100 } : OrderLine)
  | stock w _ i _ => (⟨w, i.toUInt64, draws.quantity w i, 0, 0, 0⟩ : Stock)
  | order D o _ =>
    (⟨o.toUInt64, D.dId, D.wId, some (draws.customerId D.wId D.dId o),
      some (draws.olCnt D.wId D.dId o)⟩ : Order)
  | item i _ => (⟨i.toUInt64, ((draws.price i).toFloat / 100).toFloat32⟩ : Item)
  | history D c _ => (⟨c, D.dId, D.wId, D.dId, D.wId, 10⟩ : History)

/-- The static `hash_key`. -/
def lookupKey {t : TableId} : PrimaryKey sc draws t → UInt64
  | warehouse w _ => Warehouse.staticHashKey w
  | district D => District.staticHashKey D.wId D.dId
  | customer D c _ => Customer.staticHashKey D.wId D.dId c
  | orderLine D o _ n _ => OrderLine.staticHashKey D.wId D.dId o n
  | stock w _ i _ => Stock.staticHashKey w i
  | order D o _ => Order.staticHashKey D.wId D.dId o
  | item i _ => Item.staticHashKey i
  | history D c _ => History.staticHashKey D.wId D.dId c

/-- The key that `insert_row` is called with: the member `hash_key`, which for a
warehouse goes through a 32-bit variable. -/
def insertKey {t : TableId} (p : PrimaryKey sc draws t) : UInt64 :=
  match t, p.row with
  | .warehouse, r => (Warehouse.hashKey r).toUInt32.toUInt64
  | .district, r => District.hashKey r
  | .customer, r => Customer.hashKey r
  | .orderLine, r => OrderLine.hashKey r
  | .stock, r => Stock.hashKey r
  | .order, r => Order.hashKey r
  | .newOrder, r => NewOrder.hashKey r
  | .item, r => Item.hashKey r
  | .history, r => History.hashKey r

/-- The number of the slot. -/
def index {t : TableId} : PrimaryKey sc draws t → Nat
  | warehouse w _ => w.toNat - 1
  | district D => D.index
  | customer D c _ => D.index * 3000 + (c.toNat - 1)
  | orderLine D o _ n _ => (D.index * 6840 + (o.toNat - 1)) * 15 + (n.toNat - 1)
  | stock w _ i _ => (w.toNat - 1) * 100000 + (i.toNat - 1)
  | order D o _ => D.index * 6840 + (o.toNat - 1)
  | item i _ => i.toNat - 1
  | history D c _ => D.index * 3000 + (c.toNat - 1)

/-- The line numbers of an order go up to fifteen. -/
theorem line_within {D : DistrictId sc} {o n : UInt32}
    (hn : Within (draws.olCnt D.wId D.dId o).toNat n) : Within 15 n :=
  ⟨hn.1, hn.2.trans (draws.olCnt_range D.wId D.dId o).2⟩

/-! ## Both keys are the number of the slot -/

theorem lookupKey_toNat (p : PrimaryKey sc draws t) : p.lookupKey.toNat = p.index := by
  cases p with
  | warehouse w hw => exact warehouseKey_toNat hw.1
  | district D => exact districtKey_toNat D
  | customer D c hc => exact customerKey_toNat D hc
  | history D c hc => exact customerKey_toNat D hc
  | item i hi => exact itemKey_toNat hi.1
  | stock w hw i hi => exact stockKey_toNat hw hi
  | order D o ho => exact (orderStaticKey_toNat D o).trans (by rw [toNat_sub_one ho.1]; rfl)
  | orderLine D o ho n hn =>
    exact (orderLineStaticKey_toNat D o hn.1).trans (by rw [toNat_sub_one ho.1]; rfl)

theorem insertKey_toNat (p : PrimaryKey sc draws t) : p.insertKey.toNat = p.index := by
  cases p with
  | warehouse w hw =>
    have hlt := w.toNat_lt
    have hkey : (Warehouse.hashKey ⟨w, 300000⟩).toNat = w.toNat - 1 := warehouseKey_toNat hw.1
    simp only [insertKey, row, index, UInt32.toNat_toUInt64, UInt64.toNat_toUInt32, hkey]
    exact Nat.mod_eq_of_lt (by omega)
  | district D => exact districtKey_toNat D
  | customer D c hc => exact customerKey_toNat D hc
  | history D c hc => exact customerKey_toNat D hc
  | item i hi =>
    have hi' : 1 ≤ i.toUInt64.toNat := by
      rw [UInt32.toNat_toUInt64]
      exact hi.1
    simp only [insertKey, row, index, Item.hashKey, toNat_sub_one64 hi', UInt32.toNat_toUInt64]
  | stock w hw i hi =>
    have hlt := sc.lt_42950
    have hw' := hw.2
    have hi'' := hi.2
    have hi' : 1 ≤ i.toUInt64.toNat := by
      rw [UInt32.toNat_toUInt64]
      exact hi.1
    have hmul : ((w - 1) * stockPerWarehouse).toNat = (w.toNat - 1) * 100000 := by
      rw [UInt32.toNat_mul, toNat_sub_one hw.1]
      exact Nat.mod_eq_of_lt (by simp only [stockPerWarehouse, UInt32.reduceToNat]; omega)
    simp only [insertKey, row, index, Stock.hashKey, UInt64.toNat_add, UInt32.toNat_toUInt64, hmul,
      toNat_sub_one64 hi']
    omega
  | order D o ho =>
    have ho' := ho.1
    have ho'' := ho.2
    have he : o.toUInt64.toNat = o.toNat := UInt32.toNat_toUInt64 o
    have hkey := orderKey_toNat D ⟨o.toUInt64, D.dId, D.wId, some (draws.customerId D.wId D.dId o),
      some (draws.olCnt D.wId D.dId o)⟩ rfl rfl
    simp only [he] at hkey
    exact hkey ho' (by omega)
  | orderLine D o ho n hn =>
    have hn' := line_within hn
    have he : n.toUInt64.toNat = n.toNat := UInt32.toNat_toUInt64 n
    simp only [insertKey, row, index]
    rw [orderLineKey_toNat D _ rfl rfl (by rw [he]; exact hn'.1) (by rw [he]; exact hn'.2), he,
      UInt32.toUInt32_toUInt64, toNat_sub_one ho.1]

theorem insertKey_eq (p : PrimaryKey sc draws t) : p.insertKey = p.lookupKey :=
  UInt64.toNat_inj.mp (p.insertKey_toNat.trans p.lookupKey_toNat.symm)

/-! ## Numbering -/

theorem index_lt (p : PrimaryKey sc draws t) : p.index < capacity sc.numWarehouses.toNat t := by
  cases p with
  | warehouse w hw =>
    obtain ⟨hw, hw'⟩ := hw
    simp only [index, capacity]
    omega
  | district D => exact D.index_lt
  | customer D c hc | history D c hc =>
    have hlt := D.index_lt
    have hc' := hc.2
    simp only [index, capacity]
    omega
  | item i hi =>
    obtain ⟨hi, hi'⟩ := hi
    simp only [index, capacity]
    omega
  | stock w hw i hi =>
    obtain ⟨hw, hw'⟩ := hw
    obtain ⟨hi, hi'⟩ := hi
    simp only [index, capacity]
    omega
  | order D o ho =>
    have hlt := D.index_lt
    have ho' := ho.2
    simp only [index, capacity]
    omega
  | orderLine D o ho n hn =>
    have hlt := D.index_lt
    have ho' := ho.2
    have hn' := (line_within hn).2
    simp only [index, capacity]
    omega

/-- **Different primary keys have different slots.** -/
theorem index_inj {p q : PrimaryKey sc draws t} (h : p.index = q.index) : p = q := by
  cases p with
  | warehouse w hw =>
    cases q with
    | warehouse w' hw' =>
      obtain rfl := hw.eq_of_sub_eq hw' h
      rfl
  | district D =>
    cases q with
    | district E =>
      obtain rfl := DistrictId.eq_of_index_eq h
      rfl
  | customer D c hc =>
    cases q with
    | customer E c' hc' =>
      obtain ⟨hD, rfl⟩ := hc.digit_inj hc' (Nat.le_refl 3000) h
      obtain rfl := DistrictId.eq_of_index_eq hD
      rfl
  | history D c hc =>
    cases q with
    | history E c' hc' =>
      obtain ⟨hD, rfl⟩ := hc.digit_inj hc' (Nat.le_refl 3000) h
      obtain rfl := DistrictId.eq_of_index_eq hD
      rfl
  | item i hi =>
    cases q with
    | item i' hi' =>
      obtain rfl := hi.eq_of_sub_eq hi' h
      rfl
  | stock w hw i hi =>
    cases q with
    | stock w' hw' i' hi' =>
      obtain ⟨hw'', rfl⟩ := hi.digit_inj hi' (Nat.le_refl 100000) h
      obtain rfl := hw.eq_of_sub_eq hw' hw''
      rfl
  | order D o ho =>
    cases q with
    | order E o' ho' =>
      obtain ⟨hD, rfl⟩ := ho.digit_inj ho' (by decide : 3000 ≤ 6840) h
      obtain rfl := DistrictId.eq_of_index_eq hD
      rfl
  | orderLine D o ho n hn =>
    cases q with
    | orderLine E o' ho' n' hn' =>
      obtain ⟨horder, rfl⟩ := (line_within hn).digit_inj (line_within hn') (Nat.le_refl 15) h
      obtain ⟨hD, rfl⟩ := ho.digit_inj ho' (by decide : 3000 ≤ 6840) horder
      obtain rfl := DistrictId.eq_of_index_eq hD
      rfl

/-- **Every slot of a static table belongs to a primary key.** -/
theorem exists_index (ht : t.Static) {k : Nat} (hk : k < capacity sc.numWarehouses.toNat t) :
    ∃ p : PrimaryKey sc draws t, p.index = k := by
  have hlt := sc.lt_42950
  have hcustomer : k < sc.numWarehouses.toNat * 30000 →
      ∃ (D : DistrictId sc) (c : UInt32), Within 3000 c ∧ D.index * 3000 + (c.toNat - 1) = k := by
    intro h
    obtain ⟨D, hD⟩ := @DistrictId.exists_index_eq sc (k / 3000) (by omega)
    obtain ⟨c, hc, hck⟩ := @exists_within 3000 (k % 3000) (by omega) (by omega)
    exact ⟨D, c, hc, by omega⟩
  cases t with
  | warehouse =>
    obtain ⟨w, hw, hwk⟩ := exists_within hk (by simp only [capacity] at hk; omega)
    exact ⟨.warehouse w hw, by simp only [index]; omega⟩
  | district =>
    obtain ⟨D, hD⟩ := DistrictId.exists_index_eq hk
    exact ⟨.district D, hD⟩
  | customer =>
    obtain ⟨D, c, hc, hk⟩ := hcustomer hk
    exact ⟨.customer D c hc, hk⟩
  | history =>
    obtain ⟨D, c, hc, hk⟩ := hcustomer hk
    exact ⟨.history D c hc, hk⟩
  | item =>
    obtain ⟨i, hi, hik⟩ := exists_within hk (by simp only [capacity] at hk; omega)
    exact ⟨.item i hi, by simp only [index]; omega⟩
  | stock =>
    simp only [capacity] at hk
    obtain ⟨w, hw, hwk⟩ := @exists_within sc.numWarehouses.toNat (k / 100000) (by omega) (by omega)
    obtain ⟨i, hi, hik⟩ := @exists_within 100000 (k % 100000) (by omega) (by omega)
    exact ⟨.stock w hw i hi, by simp only [index]; omega⟩
  | orderLine => exact absurd rfl ht.2.2
  | order => exact absurd rfl ht.1
  | newOrder => exact absurd rfl ht.2.1

end PrimaryKey

end Doradd.Tpcc
