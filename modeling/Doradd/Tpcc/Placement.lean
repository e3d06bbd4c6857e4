import Doradd.Lib.Layout
import Doradd.Tpcc.PrimaryKeys

/-!
# Where generated rows are placed

In the `SINGLE_TABLE` build `main` cuts one allocation into nine regions, and the
generator constructs each row at an address computed from its key.

* `tableAddr_toNat`: the regions follow each other inside the allocation;
* `rowAddr_toNat`: a row is placed in the slot of its table that its number names;
* `rows_disjoint`: so no two rows overlap, and none leaves its region.
-/

namespace Doradd.Tpcc

open Lib

/-! ## tpcc.cc -/

section
variable (sc : Scale) (base : UInt64)

/-- The size that `main` allocates. -/
def allocSize : UInt64 :=
  1024 * (tsize sc .warehouse + tsize sc .district + 2 * tsize sc .customer + tsize sc .stock +
    tsize sc .item + tsize sc .history + tsize sc .order + tsize sc .orderLine +
    tsize sc .newOrder)

def tpccArrAddrWarehouse : UInt64 := base

def tpccArrAddrDistrict : UInt64 := tpccArrAddrWarehouse base + 1024 * tsize sc .warehouse

def tpccArrAddrCustomer : UInt64 := tpccArrAddrDistrict sc base + 1024 * tsize sc .district

def tpccArrAddrStock : UInt64 := tpccArrAddrCustomer sc base + 2 * 1024 * tsize sc .customer

def tpccArrAddrItem : UInt64 := tpccArrAddrStock sc base + 1024 * tsize sc .stock

def tpccArrAddrHistory : UInt64 := tpccArrAddrItem sc base + 1024 * tsize sc .item

def tpccArrAddrOrder : UInt64 := tpccArrAddrHistory sc base + 1024 * tsize sc .history

def tpccArrAddrOrderLine : UInt64 := tpccArrAddrOrder sc base + 1024 * tsize sc .order

def tpccArrAddrNewOrder : UInt64 := tpccArrAddrOrderLine sc base + 1024 * tsize sc .orderLine

/-- The table addresses that the generator is constructed with. -/
def tableAddr : TableId → UInt64
  | .warehouse => tpccArrAddrWarehouse base
  | .district => tpccArrAddrDistrict sc base
  | .customer => tpccArrAddrCustomer sc base
  | .stock => tpccArrAddrStock sc base
  | .item => tpccArrAddrItem sc base
  | .history => tpccArrAddrHistory sc base
  | .order => tpccArrAddrOrder sc base
  | .orderLine => tpccArrAddrOrderLine sc base
  | .newOrder => tpccArrAddrNewOrder sc base

end

/-- Bytes reserved for a row. -/
def rowStride : TableId → Nat
  | .customer => 2048
  | _ => 1024

/-! ## tpcc/generator.hpp -/

/-- `row_addr`, from the key that the row is inserted under.  For a warehouse the
product is taken in 32 bits. -/
def rowAddr (sc : Scale) (base : UInt64) (t : TableId) (key : UInt64) : UInt64 :=
  match t with
  | .warehouse => tableAddr sc base .warehouse + (1024 * key.toUInt32).toUInt64
  | .customer => tableAddr sc base .customer + 2 * 1024 * key
  | t => tableAddr sc base t + 1024 * key

/-! ## Regions -/

/-- The regions in the order in which `main` lays them out. -/
def regions : List TableId :=
  [.warehouse, .district, .customer, .stock, .item, .history, .order, .orderLine, .newOrder]

def regionSizes (W : Nat) : List Nat := regions.map fun t => rowStride t * capacity W t

/-- The position of a region. -/
def TableId.position : TableId → Nat
  | .warehouse => 0
  | .district => 1
  | .customer => 2
  | .stock => 3
  | .item => 4
  | .history => 5
  | .order => 6
  | .orderLine => 7
  | .newOrder => 8

theorem position_inj {t u : TableId} (h : t.position = u.position) : t = u := by
  cases t <;> cases u <;> first | rfl | exact absurd h (by decide)

theorem length_regionSizes (W : Nat) : (regionSizes W).length = 9 := rfl

theorem position_lt (W : Nat) (t : TableId) : t.position < (regionSizes W).length := by
  rw [length_regionSizes]
  cases t <;> decide

theorem regionSizes_position (W : Nat) (t : TableId)
    (h : t.position < (regionSizes W).length) :
    (regionSizes W)[t.position] = rowStride t * capacity W t := by
  cases t <;> rfl

/-- The region of a table: the bytes from its address on that its rows may take. -/
def region (sc : Scale) (base : UInt64) (t : TableId) : Set Nat :=
  Set.Ico (tableAddr sc base t).toNat
    ((tableAddr sc base t).toNat + rowStride t * (tsize sc t).toNat)

/-- The bytes reserved for a row. -/
def rowBytes (sc : Scale) (base : UInt64) (t : TableId) (key : UInt64) : Set Nat :=
  Set.Ico (rowAddr sc base t key).toNat ((rowAddr sc base t key).toNat + rowStride t)

section
variable {sc : Scale} {base : UInt64}

/-! Sums and products that do not wrap. -/

theorem add_toNat {a b : UInt64} {x y : Nat} (ha : a.toNat = x) (hb : b.toNat = y)
    (h : x + y < 2 ^ 64) : (a + b).toNat = x + y := by
  rw [UInt64.toNat_add, ha, hb]
  exact Nat.mod_eq_of_lt h

theorem mul_toNat {a b : UInt64} {x y : Nat} (ha : a.toNat = x) (hb : b.toNat = y)
    (h : x * y < 2 ^ 64) : (a * b).toNat = x * y := by
  rw [UInt64.toNat_mul, ha, hb]
  exact Nat.mod_eq_of_lt h

theorem capacity_lt (sc : Scale) (t : TableId) :
    capacity sc.numWarehouses.toNat t < 2700000000000 := by
  have hlt := sc.lt_42950
  cases t <;> simp only [capacity] <;> omega

theorem sum_regions (f : TableId → Nat) :
    (regions.map f).sum = f .warehouse + (f .district + (f .customer + (f .stock + (f .item +
      (f .history + (f .order + (f .orderLine + f .newOrder))))))) := by
  simp only [regions, List.map_cons, List.map_nil, List.sum_cons, List.sum_nil, Nat.add_zero]

theorem allocSize_toNat (sc : Scale) :
    (allocSize sc).toNat = (regionSizes sc.numWarehouses.toNat).sum := by
  have hlt := capacity_lt sc
  have hsize := tsize_toNat sc
  have h₀ := hlt .warehouse
  have h₁ := hlt .district
  have h₂ := hlt .customer
  have h₃ := hlt .stock
  have h₄ := hlt .item
  have h₅ := hlt .history
  have h₆ := hlt .order
  have h₇ := hlt .orderLine
  have h₈ := hlt .newOrder
  have htwo : (2 : UInt64).toNat = 2 := rfl
  have hkilo : (1024 : UInt64).toNat = 1024 := rfl
  have hsum := add_toNat (add_toNat (add_toNat (add_toNat (add_toNat (add_toNat (add_toNat
    (add_toNat (hsize .warehouse) (hsize .district) (by omega))
    (mul_toNat htwo (hsize .customer) (by omega)) (by omega))
    (hsize .stock) (by omega)) (hsize .item) (by omega)) (hsize .history) (by omega))
    (hsize .order) (by omega)) (hsize .orderLine) (by omega)) (hsize .newOrder) (by omega)
  have htotal : (allocSize sc).toNat = 1024 * _ := mul_toNat hkilo hsum (by omega)
  rw [htotal, regionSizes, sum_regions]
  simp only [rowStride]
  omega

/-- The size of a region, computed without wrapping. -/
theorem regionSize_toNat (sc : Scale) (t : TableId) (h : rowStride t = 1024) :
    (1024 * tsize sc t).toNat = rowStride t * capacity sc.numWarehouses.toNat t := by
  have hlt := capacity_lt sc t
  rw [h]
  exact mul_toNat rfl (tsize_toNat sc t) (by omega)

/-- The address of a table follows the region before it. -/
structure Follows (sc : Scale) (base : UInt64) (t : TableId) : Prop where
  addr : (tableAddr sc base t).toNat =
    base.toNat + offset (regionSizes sc.numWarehouses.toNat) t.position

theorem Follows.next (h : base.toNat + (allocSize sc).toNat ≤ 2 ^ 64) {t : TableId}
    (ht : Follows sc base t) {size : UInt64}
    (hsize : size.toNat = rowStride t * capacity sc.numWarehouses.toNat t) (u : TableId)
    (hu : u.position = t.position + 1)
    (haddr : tableAddr sc base u = tableAddr sc base t + size) : Follows sc base u := by
  have hpos := sc.pos
  have hsucc := offset_succ (position_lt sc.numWarehouses.toNat t)
  rw [regionSizes_position, ← hsize, ← hu] at hsucc
  -- the sum stays below `2 ^ 64`, as the region that begins there is not empty
  have hle := offset_add_le_sum (position_lt sc.numWarehouses.toNat u)
  rw [regionSizes_position, ← allocSize_toNat] at hle
  have hsome : 0 < rowStride u * capacity sc.numWarehouses.toNat u := by
    cases u <;> simp only [rowStride, capacity] <;> omega
  constructor
  rw [haddr, add_toNat ht.addr rfl (by omega)]
  omega

/-- **The regions follow each other.** -/
theorem tableAddr_toNat (h : base.toNat + (allocSize sc).toNat ≤ 2 ^ 64) (t : TableId) :
    (tableAddr sc base t).toNat =
      base.toNat + offset (regionSizes sc.numWarehouses.toNat) t.position := by
  have hcustomer : (2 * 1024 * tsize sc .customer).toNat =
      rowStride .customer * capacity sc.numWarehouses.toNat .customer := by
    have hlt := capacity_lt sc .customer
    have htwo : (2 * 1024 : UInt64).toNat = rowStride .customer := rfl
    exact mul_toNat htwo (tsize_toNat sc .customer) (by simp only [rowStride]; omega)
  have h₀ : Follows sc base .warehouse := ⟨rfl⟩
  have h₁ := h₀.next h (regionSize_toNat sc .warehouse rfl) .district rfl rfl
  have h₂ := h₁.next h (regionSize_toNat sc .district rfl) .customer rfl rfl
  have h₃ := h₂.next h hcustomer .stock rfl rfl
  have h₄ := h₃.next h (regionSize_toNat sc .stock rfl) .item rfl rfl
  have h₅ := h₄.next h (regionSize_toNat sc .item rfl) .history rfl rfl
  have h₆ := h₅.next h (regionSize_toNat sc .history rfl) .order rfl rfl
  have h₇ := h₆.next h (regionSize_toNat sc .order rfl) .orderLine rfl rfl
  have h₈ := h₇.next h (regionSize_toNat sc .orderLine rfl) .newOrder rfl rfl
  have hall : Follows sc base t := by cases t <;> assumption
  exact hall.addr

/-- A region lies inside the allocation. -/
theorem region_subset (h : base.toNat + (allocSize sc).toNat ≤ 2 ^ 64) (t : TableId) :
    region sc base t ⊆ Set.Ico base.toNat (base.toNat + (allocSize sc).toNat) := by
  have hle := offset_add_le_sum (position_lt sc.numWarehouses.toNat t)
  rw [regionSizes_position, ← allocSize_toNat] at hle
  rw [region, tableAddr_toNat h, tsize_toNat]
  exact Set.Ico_subset_Ico (Nat.le_add_right _ _) (by omega)

theorem disjoint_region (h : base.toNat + (allocSize sc).toNat ≤ 2 ^ 64) {t u : TableId}
    (hne : t ≠ u) : Disjoint (region sc base t) (region sc base u) := by
  have hd := disjoint_block base.toNat (position_lt sc.numWarehouses.toNat t)
    (position_lt sc.numWarehouses.toNat u) fun hp => hne (position_inj hp)
  rw [regionSizes_position, regionSizes_position] at hd
  rwa [region, region, tableAddr_toNat h, tableAddr_toNat h, tsize_toNat, tsize_toNat]

/-! ## Rows -/

/-- A row is placed in the slot that its key names. -/
theorem rowAddr_toNat (h : base.toNat + (allocSize sc).toNat ≤ 2 ^ 64) {t : TableId} {key : UInt64}
    (hk : key.toNat < capacity sc.numWarehouses.toNat t) :
    (rowAddr sc base t key).toNat = (tableAddr sc base t).toNat + rowStride t * key.toNat := by
  have hlt := sc.lt_42950
  have hle := offset_add_le_sum (position_lt sc.numWarehouses.toNat t)
  rw [regionSizes_position, ← allocSize_toNat] at hle
  have haddr := tableAddr_toNat h t
  have hmul : rowStride t * (key.toNat + 1) ≤ rowStride t * capacity sc.numWarehouses.toNat t :=
    Nat.mul_le_mul_left _ hk
  cases t with
  | warehouse =>
    simp only [rowStride, capacity] at hk hmul hle ⊢
    have hkey : key.toUInt32.toNat = key.toNat := by
      rw [UInt64.toNat_toUInt32]
      exact Nat.mod_eq_of_lt (by omega)
    have hprod : (1024 * key.toUInt32).toUInt64.toNat = 1024 * key.toNat := by
      rw [UInt32.toNat_toUInt64, UInt32.toNat_mul, hkey]
      exact Nat.mod_eq_of_lt (by simp only [UInt32.reduceToNat]; omega)
    rw [rowAddr, UInt64.toNat_add, hprod]
    omega
  | customer =>
    simp only [rowStride, capacity] at hk hmul hle ⊢
    have hprod : (2 * 1024 * key).toNat = 2048 * key.toNat := by
      rw [UInt64.toNat_mul]
      exact Nat.mod_eq_of_lt (by simp only [UInt64.reduceMul, UInt64.reduceToNat]; omega)
    rw [rowAddr, UInt64.toNat_add, hprod]
    omega
  | _ =>
    simp only [rowStride, capacity] at hk hmul hle ⊢
    simp only [rowAddr, UInt64.toNat_add, UInt64.toNat_mul, UInt64.reduceToNat]
    omega

theorem rowBytes_eq (h : base.toNat + (allocSize sc).toNat ≤ 2 ^ 64) {draws : Draws} {t : TableId}
    (p : PrimaryKey sc draws t) :
    rowBytes sc base t p.insertKey = slot (tableAddr sc base t).toNat (rowStride t) p.index := by
  have hk := p.insertKey_toNat
  rw [rowBytes, rowAddr_toNat h (lt_of_eq_of_lt hk p.index_lt), hk, slot]

/-- **No two generated rows overlap.**  If the allocation lies in the address
space, every row lies in the region of its table, every region lies in the
allocation, and different rows take different bytes. -/
theorem rows_disjoint (sc : Scale) (draws : Draws) (base : UInt64)
    (h : base.toNat + (allocSize sc).toNat ≤ 2 ^ 64) :
    (∀ (t : TableId) (p : PrimaryKey sc draws t),
      rowBytes sc base t p.insertKey ⊆ region sc base t) ∧
    (∀ t : TableId,
      region sc base t ⊆ Set.Ico base.toNat (base.toNat + (allocSize sc).toNat)) ∧
    ∀ (t u : TableId) (p : PrimaryKey sc draws t) (q : PrimaryKey sc draws u),
      (⟨t, p⟩ : (t : TableId) × PrimaryKey sc draws t) ≠ ⟨u, q⟩ →
        Disjoint (rowBytes sc base t p.insertKey) (rowBytes sc base u q.insertKey) := by
  have hsub : ∀ (t : TableId) (p : PrimaryKey sc draws t),
      rowBytes sc base t p.insertKey ⊆ region sc base t := by
    intro t p
    rw [rowBytes_eq h, region, tsize_toNat]
    exact slot_subset _ _ p.index_lt
  refine ⟨hsub, region_subset h, fun t u p q hne => ?_⟩
  by_cases htu : t = u
  · subst htu
    rw [rowBytes_eq h, rowBytes_eq h]
    refine disjoint_slot _ _ fun hpq => hne ?_
    rw [PrimaryKey.index_inj hpq]
  · exact (disjoint_region h htu).mono (hsub t p) (hsub u q)

end

theorem rows_disjoint_page :
    (∀ (t : TableId) (p : PrimaryKey Scale.one exampleDraws t),
      rowBytes Scale.one 2097152 t p.insertKey ⊆ region Scale.one 2097152 t) ∧
    (∀ t : TableId, region Scale.one 2097152 t ⊆
      Set.Ico (2097152 : UInt64).toNat ((2097152 : UInt64).toNat + (allocSize Scale.one).toNat)) ∧
    ∀ (t u : TableId) (p : PrimaryKey Scale.one exampleDraws t)
      (q : PrimaryKey Scale.one exampleDraws u),
      (⟨t, p⟩ : (t : TableId) × PrimaryKey Scale.one exampleDraws t) ≠ ⟨u, q⟩ →
        Disjoint (rowBytes Scale.one 2097152 t p.insertKey)
          (rowBytes Scale.one 2097152 u q.insertKey) :=
  rows_disjoint Scale.one exampleDraws 2097152 (by decide)

end Doradd.Tpcc
