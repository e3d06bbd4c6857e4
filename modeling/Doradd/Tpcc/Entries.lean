import Mathlib.Algebra.Ring.Nat
import Mathlib.Tactic.Ring

/-!
# The rows of TPC-C and their keys

A row is stored under a key computed from its primary key in 32- and 64-bit
unsigned arithmetic.  Most rows have the computation twice: a member function,
used to insert, and a static one, used to look up.

* `DistrictId.index`: the districts are numbered without gaps;
* `…hashKey_toNat`: on valid primary keys the arithmetic does not wrap, and the
  key is the mixed-radix number it was meant to be.
-/

namespace Doradd.Tpcc

/-! ## tpcc/constants.hpp -/

def numTransactions : UInt64 := 3200 * 2
def maxOrderTransactions : UInt64 := (numTransactions / 10) * 6
def numItems : UInt32 := 100000
def stockPerWarehouse : UInt32 := 100000
def districtsPerWarehouse : UInt32 := 10
def customersPerDistrict : UInt32 := 3000
def initialOrdersPerDistrict : UInt32 := 3000
def initialNewOrdersPerDistrict : UInt32 := 900

/-- The factor `INITIAL_ORDERS_PER_DISTRICT + MAX_ORDER_TRANSACTIONS` of the
order keys: the slots reserved for the orders of one district. -/
def stride : UInt64 := initialOrdersPerDistrict.toUInt64 + maxOrderTransactions

/-- `NUM_WAREHOUSES`, kept as a parameter: every table is sized by it. -/
structure Scale where
  numWarehouses : UInt32
  pos : 1 ≤ numWarehouses.toNat
  fits : numWarehouses.toNat * 100000 < 2 ^ 32

/-- The scale of the source. -/
def Scale.one : Scale := ⟨1, by decide, by decide⟩

@[simp] theorem maxOrderTransactions_toNat : maxOrderTransactions.toNat = 3840 := rfl

@[simp] theorem stride_toNat : stride.toNat = 6840 := rfl

theorem Scale.lt_42950 (sc : Scale) : sc.numWarehouses.toNat < 42950 := by
  have := sc.fits
  omega

/-! ## tpcc/entries.hpp -/

structure Warehouse where
  wId : UInt32
  wYtd : UInt64

structure District where
  dId : UInt32
  wId : UInt32
  dYtd : UInt64
  dNextOId : UInt64

structure Item where
  iId : UInt64
  iPrice : Float32

structure Customer where
  cId : UInt32
  cDId : UInt32
  cWId : UInt32
  cBalance : Float32
  cYtdPayment : UInt64
  cPaymentCnt : UInt64

/-- The fields that only the generator assigns are `none` in an order that a
transaction makes. -/
structure Order where
  oId : UInt64
  oDId : UInt32
  oWId : UInt32
  oCId : Option UInt32
  oOlCnt : Option UInt32

structure OrderLine where
  olOId : UInt64
  olDId : UInt32
  olWId : UInt32
  olIId : UInt64
  olNumber : UInt64
  olSupplyWId : UInt64
  olQuantity : UInt64
  olAmount : UInt64

structure NewOrder where
  noOId : UInt32
  noDId : UInt32
  noWId : UInt32

structure Stock where
  sWId : UInt32
  sIId : UInt64
  sQuantity : UInt64
  sYtd : UInt64
  sOrderCnt : UInt64
  sRemoteCnt : UInt64

structure History where
  hCId : UInt32
  hCDId : UInt32
  hCWId : UInt32
  hDId : UInt32
  hWId : UInt32
  hAmount : Float32

/-! ## Keys -/

def Warehouse.staticHashKey (wid : UInt32) : UInt64 := (wid - 1).toUInt64

def Warehouse.hashKey (r : Warehouse) : UInt64 := (r.wId - 1).toUInt64

def District.staticHashKey (wid did : UInt32) : UInt64 :=
  ((wid - 1) * districtsPerWarehouse + (did - 1)).toUInt64

def District.hashKey (r : District) : UInt64 :=
  ((r.wId - 1) * districtsPerWarehouse + (r.dId - 1)).toUInt64

def Item.staticHashKey (iid : UInt32) : UInt64 := (iid - 1).toUInt64

def Item.hashKey (r : Item) : UInt64 := r.iId - 1

def Customer.staticHashKey (wid did cid : UInt32) : UInt64 :=
  ((wid - 1) * districtsPerWarehouse * customersPerDistrict + (did - 1) * customersPerDistrict +
    (cid - 1)).toUInt64

def Customer.hashKey (r : Customer) : UInt64 :=
  ((r.cWId - 1) * districtsPerWarehouse * customersPerDistrict +
    (r.cDId - 1) * customersPerDistrict + (r.cId - 1)).toUInt64

/-- The order id is a 32-bit argument here and a 64-bit field in `hashKey`. -/
def Order.staticHashKey (wid did oid : UInt32) : UInt64 :=
  ((wid - 1) * districtsPerWarehouse).toUInt64 * stride + (did - 1).toUInt64 * stride +
    (oid - 1).toUInt64

def Order.hashKey (r : Order) : UInt64 :=
  ((r.oWId - 1) * districtsPerWarehouse).toUInt64 * stride + (r.oDId - 1).toUInt64 * stride +
    (r.oId - 1)

def OrderLine.staticHashKey (wid did oid number : UInt32) : UInt64 :=
  Order.staticHashKey wid did oid * 15 + (number - 1).toUInt64

/-- The 64-bit `ol_o_id` is narrowed to the 32-bit argument of the static key of
an order. -/
def OrderLine.hashKey (r : OrderLine) : UInt64 :=
  Order.staticHashKey r.olWId r.olDId r.olOId.toUInt32 * 15 + (r.olNumber - 1)

def NewOrder.staticHashKey (wid did oid : UInt32) : UInt64 :=
  ((wid - 1) * districtsPerWarehouse).toUInt64 * stride + (did - 1).toUInt64 * stride +
    (oid - 1).toUInt64

def NewOrder.hashKey (r : NewOrder) : UInt64 :=
  ((r.noWId - 1) * districtsPerWarehouse).toUInt64 * stride + (r.noDId - 1).toUInt64 * stride +
    (r.noOId - 1).toUInt64

def Stock.staticHashKey (wid iid : UInt32) : UInt64 :=
  ((wid - 1) * stockPerWarehouse + (iid - 1)).toUInt64

def Stock.hashKey (r : Stock) : UInt64 :=
  ((r.sWId - 1) * stockPerWarehouse).toUInt64 + (r.sIId - 1)

def History.staticHashKey (wid did cid : UInt32) : UInt64 :=
  ((wid - 1) * districtsPerWarehouse * customersPerDistrict + (did - 1) * customersPerDistrict +
    (cid - 1)).toUInt64

def History.hashKey (r : History) : UInt64 :=
  ((r.hCWId - 1) * districtsPerWarehouse * customersPerDistrict +
    (r.hCDId - 1) * customersPerDistrict + (r.hCId - 1)).toUInt64

/-! ## Valid primary keys -/

/-- An id counted from one. -/
def Within (n : Nat) (i : UInt32) : Prop := 1 ≤ i.toNat ∧ i.toNat ≤ n

instance (n : Nat) (i : UInt32) : Decidable (Within n i) := inferInstanceAs (Decidable (_ ∧ _))

theorem Within.eq_of_sub_eq {m n : Nat} {i j : UInt32} (hi : Within m i) (hj : Within n j)
    (h : i.toNat - 1 = j.toNat - 1) : i = j := by
  obtain ⟨hi, -⟩ := hi
  obtain ⟨hj, -⟩ := hj
  exact UInt32.toNat_inj.mp (by omega)

/-- The last digit of a number, and the number before it. -/
theorem Within.digit_inj {n b x y : Nat} {i j : UInt32} (hi : Within n i) (hj : Within n j)
    (hn : n ≤ b) (h : x * b + (i.toNat - 1) = y * b + (j.toNat - 1)) : x = y ∧ i = j := by
  have hi' := hi
  have hj' := hj
  unfold Within at hi' hj'
  have hb : 0 < b := by omega
  have hdiv : ∀ {z r : Nat}, r < b → (z * b + r) / b = z := by
    intro z r hr
    rw [Nat.add_comm, Nat.add_mul_div_right r z hb, Nat.div_eq_of_lt hr, Nat.zero_add]
  obtain rfl : x = y := by
    rw [← hdiv (z := x) (by omega : i.toNat - 1 < b), h, hdiv (by omega)]
  exact ⟨rfl, hi.eq_of_sub_eq hj (Nat.add_left_cancel h)⟩

theorem exists_within {n k : Nat} (h : k < n) (h' : k < 1000000) :
    ∃ i : UInt32, Within n i ∧ i.toNat = k + 1 := by
  have he : (UInt32.ofNat (k + 1)).toNat = k + 1 :=
    UInt32.toNat_ofNat_of_lt' (by simp only [UInt32.size]; omega)
  refine ⟨UInt32.ofNat (k + 1), ?_, he⟩
  unfold Within
  omega

/-- The primary key of a district. -/
structure DistrictId (sc : Scale) where
  wId : UInt32
  dId : UInt32
  valid_w : Within sc.numWarehouses.toNat wId
  valid_d : Within 10 dId

namespace DistrictId

variable {sc : Scale}

/-- Districts are numbered from zero, warehouse by warehouse. -/
def index (D : DistrictId sc) : Nat := (D.wId.toNat - 1) * 10 + (D.dId.toNat - 1)

theorem index_lt (D : DistrictId sc) : D.index < sc.numWarehouses.toNat * 10 := by
  obtain ⟨hw, hw'⟩ := D.valid_w
  obtain ⟨hd, hd'⟩ := D.valid_d
  unfold index
  omega

theorem index_lt_429490 (D : DistrictId sc) : D.index < 429490 := by
  have h₁ := D.index_lt
  have h₂ := sc.lt_42950
  omega

theorem eq_of_index_eq {D E : DistrictId sc} (h : D.index = E.index) : D = E := by
  obtain ⟨hw, hd⟩ := D.valid_d.digit_inj E.valid_d (Nat.le_refl 10) h
  have hw' : D.wId = E.wId := D.valid_w.eq_of_sub_eq E.valid_w hw
  cases D
  cases E
  simp only [mk.injEq]
  exact ⟨hw', hd⟩

theorem exists_index_eq {k : Nat} (h : k < sc.numWarehouses.toNat * 10) :
    ∃ D : DistrictId sc, D.index = k := by
  have hlt := sc.lt_42950
  obtain ⟨w, hw, hw'⟩ := @exists_within sc.numWarehouses.toNat (k / 10) (by omega) (by omega)
  obtain ⟨d, hd, hd'⟩ := @exists_within 10 (k % 10) (by omega) (by omega)
  refine ⟨⟨w, d, hw, hd⟩, ?_⟩
  simp only [index, hw', hd']
  omega

end DistrictId

/-! ## What the keys compute -/

section

variable {sc : Scale}

theorem toNat_sub_one {a : UInt32} (h : 1 ≤ a.toNat) : (a - 1).toNat = a.toNat - 1 :=
  UInt32.toNat_sub_of_le a 1 (UInt32.le_iff_toNat_le.mpr h)

theorem toNat_sub_one64 {a : UInt64} (h : 1 ≤ a.toNat) : (a - 1).toNat = a.toNat - 1 :=
  UInt64.toNat_sub_of_le a 1 (UInt64.le_iff_toNat_le.mpr h)

theorem warehouseKey_toNat {w : UInt32} (h : 1 ≤ w.toNat) :
    (Warehouse.staticHashKey w).toNat = w.toNat - 1 := by
  rw [Warehouse.staticHashKey, UInt32.toNat_toUInt64, toNat_sub_one h]

theorem itemKey_toNat {i : UInt32} (h : 1 ≤ i.toNat) :
    (Item.staticHashKey i).toNat = i.toNat - 1 := by
  rw [Item.staticHashKey, UInt32.toNat_toUInt64, toNat_sub_one h]

/-- The part of a district key that the warehouse decides. -/
theorem DistrictId.warehouseOffset_toNat (D : DistrictId sc) :
    ((D.wId - 1) * districtsPerWarehouse).toNat = (D.wId.toNat - 1) * 10 := by
  have hlt := D.index_lt_429490
  unfold DistrictId.index at hlt
  rw [UInt32.toNat_mul, toNat_sub_one D.valid_w.1]
  exact Nat.mod_eq_of_lt (by simp only [districtsPerWarehouse, UInt32.reduceToNat]; omega)

theorem districtKey_toNat (D : DistrictId sc) :
    (District.staticHashKey D.wId D.dId).toNat = D.index := by
  have hlt := D.index_lt_429490
  have hd := toNat_sub_one D.valid_d.1
  unfold DistrictId.index at hlt ⊢
  have hmul := D.warehouseOffset_toNat
  rw [District.staticHashKey, UInt32.toNat_toUInt64, UInt32.toNat_add, hmul, hd]
  exact Nat.mod_eq_of_lt (by omega)

/-- The part of an order key that the district decides. -/
theorem districtOffset_toNat (D : DistrictId sc) :
    (((D.wId - 1) * districtsPerWarehouse).toUInt64 * stride +
      (D.dId - 1).toUInt64 * stride).toNat = D.index * 6840 := by
  have hlt := D.index_lt_429490
  have hd := toNat_sub_one D.valid_d.1
  unfold DistrictId.index at hlt ⊢
  have hmul := D.warehouseOffset_toNat
  simp only [UInt64.toNat_add, UInt64.toNat_mul, UInt32.toNat_toUInt64, stride_toNat, hmul, hd]
  omega

theorem customerKey_toNat (D : DistrictId sc) {c : UInt32} (h : Within 3000 c) :
    (Customer.staticHashKey D.wId D.dId c).toNat = D.index * 3000 + (c.toNat - 1) := by
  have hlt := D.index_lt_429490
  have hd := toNat_sub_one D.valid_d.1
  have hc := toNat_sub_one h.1
  have hc' := h.2
  unfold DistrictId.index at hlt ⊢
  have hmul := D.warehouseOffset_toNat
  have hW : ((D.wId - 1) * districtsPerWarehouse * customersPerDistrict).toNat =
      (D.wId.toNat - 1) * 10 * 3000 := by
    rw [UInt32.toNat_mul, hmul]
    exact Nat.mod_eq_of_lt (by simp only [customersPerDistrict, UInt32.reduceToNat]; omega)
  have hD : ((D.dId - 1) * customersPerDistrict).toNat = (D.dId.toNat - 1) * 3000 := by
    rw [UInt32.toNat_mul, hd]
    exact Nat.mod_eq_of_lt (by simp only [customersPerDistrict, UInt32.reduceToNat]; omega)
  rw [Customer.staticHashKey, UInt32.toNat_toUInt64, UInt32.toNat_add, UInt32.toNat_add, hW, hD, hc]
  omega

theorem stockKey_toNat {w i : UInt32} (hw : Within sc.numWarehouses.toNat w)
    (hi : Within 100000 i) :
    (Stock.staticHashKey w i).toNat = (w.toNat - 1) * 100000 + (i.toNat - 1) := by
  have hlt := sc.lt_42950
  have hw' := toNat_sub_one hw.1
  have hi' := toNat_sub_one hi.1
  have h₁ := hw.2
  have h₂ := hi.2
  have hmul : ((w - 1) * stockPerWarehouse).toNat = (w.toNat - 1) * 100000 := by
    rw [UInt32.toNat_mul, hw']
    simp only [stockPerWarehouse, UInt32.reduceToNat]
    exact Nat.mod_eq_of_lt (by omega)
  rw [Stock.staticHashKey, UInt32.toNat_toUInt64, UInt32.toNat_add, hmul, hi']
  omega

/-- The key that an order is inserted under. -/
theorem orderKey_toNat (D : DistrictId sc) (r : Order) (hw : r.oWId = D.wId) (hd : r.oDId = D.dId)
    (h : 1 ≤ r.oId.toNat) (h' : r.oId.toNat < 2 ^ 63) :
    r.hashKey.toNat = D.index * 6840 + (r.oId.toNat - 1) := by
  have hlt := D.index_lt_429490
  rw [Order.hashKey, hw, hd, UInt64.toNat_add, districtOffset_toNat, toNat_sub_one64 h]
  exact Nat.mod_eq_of_lt (by omega)

/-- The key that an order is looked up under; id zero is the one that wraps. -/
theorem orderStaticKey_toNat (D : DistrictId sc) (oid : UInt32) :
    (Order.staticHashKey D.wId D.dId oid).toNat = D.index * 6840 + (oid - 1).toNat := by
  have hlt := D.index_lt_429490
  have ho := (oid - 1).toNat_lt
  rw [Order.staticHashKey, UInt64.toNat_add, districtOffset_toNat, UInt32.toNat_toUInt64]
  exact Nat.mod_eq_of_lt (by omega)

/-- Every order has fifteen slots for its lines. -/
theorem orderStaticKey_mul_toNat (D : DistrictId sc) (oid : UInt32) :
    (Order.staticHashKey D.wId D.dId oid * 15).toNat =
      (D.index * 6840 + (oid - 1).toNat) * 15 := by
  have hlt := D.index_lt_429490
  have ho := (oid - 1).toNat_lt
  rw [UInt64.toNat_mul, orderStaticKey_toNat]
  exact Nat.mod_eq_of_lt (by simp only [UInt64.reduceToNat]; omega)

/-- The key that a line is looked up under. -/
theorem orderLineStaticKey_toNat (D : DistrictId sc) (oid : UInt32) {n : UInt32}
    (hn : 1 ≤ n.toNat) : (OrderLine.staticHashKey D.wId D.dId oid n).toNat =
      (D.index * 6840 + (oid - 1).toNat) * 15 + (n.toNat - 1) := by
  have hlt := D.index_lt_429490
  have ho := (oid - 1).toNat_lt
  have hn' := n.toNat_lt
  rw [OrderLine.staticHashKey, UInt64.toNat_add, orderStaticKey_mul_toNat,
    UInt32.toNat_toUInt64, toNat_sub_one hn]
  exact Nat.mod_eq_of_lt (by omega)

theorem newOrderKey_toNat (D : DistrictId sc) (r : NewOrder) (hw : r.noWId = D.wId)
    (hd : r.noDId = D.dId) : r.hashKey.toNat = D.index * 6840 + (r.noOId - 1).toNat := by
  have hlt := D.index_lt_429490
  have ho := (r.noOId - 1).toNat_lt
  rw [NewOrder.hashKey, hw, hd, UInt64.toNat_add, districtOffset_toNat, UInt32.toNat_toUInt64]
  exact Nat.mod_eq_of_lt (by omega)

/-- The key that a line is inserted under. -/
theorem orderLineKey_toNat (D : DistrictId sc) (r : OrderLine) (hw : r.olWId = D.wId)
    (hd : r.olDId = D.dId) (h : 1 ≤ r.olNumber.toNat) (h' : r.olNumber.toNat ≤ 15) :
    r.hashKey.toNat =
      (D.index * 6840 + (r.olOId.toUInt32 - 1).toNat) * 15 + (r.olNumber.toNat - 1) := by
  have hlt := D.index_lt_429490
  have ho := (r.olOId.toUInt32 - 1).toNat_lt
  rw [OrderLine.hashKey, hw, hd, UInt64.toNat_add, orderStaticKey_mul_toNat, toNat_sub_one64 h]
  exact Nat.mod_eq_of_lt (by omega)

end

end Doradd.Tpcc
