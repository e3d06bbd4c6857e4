import Mathlib.Logic.Function.Basic
import Doradd.Tpcc.Entries

/-!
# The database

Nine tables of fixed size.  A table is an array of rows with a count of the
insertions made; an insertion tests the count but is made at the key it is given.

* `Fault`: the ways in which an access stops the program;
* `Database.readRow_ok_iff`, `updateRow_ok_iff`, `insertRow_ok_iff`: when an
  access goes through, and what it does;
* `Database.Extends`: no access empties a slot.
-/

namespace Doradd.Tpcc

inductive TableId where
  | warehouse | district | customer | orderLine | stock | order | newOrder | item | history
deriving DecidableEq

/-- What a table holds. -/
@[reducible] def Row : TableId → Type
  | .warehouse => Warehouse
  | .district => District
  | .customer => Customer
  | .orderLine => OrderLine
  | .stock => Stock
  | .order => Order
  | .newOrder => NewOrder
  | .item => Item
  | .history => History

/-- The tables that only the generator inserts into. -/
def TableId.Static (t : TableId) : Prop := t ≠ .order ∧ t ≠ .newOrder ∧ t ≠ .orderLine

instance (t : TableId) : Decidable t.Static := inferInstanceAs (Decidable (_ ∧ _ ∧ _))

/-- `DB_SIZE` of each table, from tpcc/constants.hpp. -/
def tsize (sc : Scale) : TableId → UInt64
  | .warehouse => sc.numWarehouses.toUInt64
  | .district => (sc.numWarehouses * districtsPerWarehouse).toUInt64
  | .customer => (sc.numWarehouses * districtsPerWarehouse * customersPerDistrict).toUInt64
  | .orderLine =>
    (sc.numWarehouses * districtsPerWarehouse).toUInt64 *
      (initialOrdersPerDistrict.toUInt64 + maxOrderTransactions) * 30 * 30
  | .stock => (sc.numWarehouses * stockPerWarehouse).toUInt64
  | .order =>
    (sc.numWarehouses * districtsPerWarehouse).toUInt64 *
      (initialOrdersPerDistrict.toUInt64 + maxOrderTransactions) * 30
  | .newOrder =>
    (sc.numWarehouses * districtsPerWarehouse).toUInt64 *
      (initialNewOrdersPerDistrict.toUInt64 + maxOrderTransactions) * 30
  | .item => numItems.toUInt64
  | .history => (sc.numWarehouses * districtsPerWarehouse * customersPerDistrict).toUInt64

/-- How many rows a table has room for. -/
def capacity (W : Nat) : TableId → Nat
  | .warehouse => W
  | .district => W * 10
  | .customer => W * 30000
  | .orderLine => W * 61560000
  | .stock => W * 100000
  | .order => W * 2052000
  | .newOrder => W * 1422000
  | .item => 100000
  | .history => W * 30000

/-- The size computations do not wrap. -/
theorem tsize_toNat (sc : Scale) (t : TableId) :
    (tsize sc t).toNat = capacity sc.numWarehouses.toNat t := by
  have hlt := sc.lt_42950
  have h₁ : (sc.numWarehouses * districtsPerWarehouse).toNat = sc.numWarehouses.toNat * 10 := by
    rw [UInt32.toNat_mul]
    exact Nat.mod_eq_of_lt (by simp only [districtsPerWarehouse, UInt32.reduceToNat]; omega)
  have h₂ : (sc.numWarehouses * districtsPerWarehouse * customersPerDistrict).toNat =
      sc.numWarehouses.toNat * 30000 := by
    rw [UInt32.toNat_mul, h₁]
    simp only [customersPerDistrict, UInt32.reduceToNat]
    omega
  have h₃ : (sc.numWarehouses * stockPerWarehouse).toNat = sc.numWarehouses.toNat * 100000 := by
    rw [UInt32.toNat_mul]
    exact Nat.mod_eq_of_lt (by simp only [stockPerWarehouse, UInt32.reduceToNat]; omega)
  have h₄ : (initialOrdersPerDistrict.toUInt64 + maxOrderTransactions).toNat = 6840 := rfl
  have h₅ : (initialNewOrdersPerDistrict.toUInt64 + maxOrderTransactions).toNat = 4740 := rfl
  cases t <;> simp only [tsize, capacity, UInt64.toNat_mul, UInt32.toNat_toUInt64, h₁, h₂, h₃, h₄,
    h₅, UInt64.reduceToNat]
  · omega
  · omega
  · omega
  · rfl

theorem lt_tsize {sc : Scale} {t : TableId} {key : UInt64}
    (h : key.toNat < capacity sc.numWarehouses.toNat t) : key < tsize sc t := by
  rw [UInt64.lt_iff_toNat_lt, tsize_toNat]
  exact h

/-! ## Tables -/

/-- `Table<Key, T, DB_SIZE>` -/
structure Table (T : Type) where
  map : Nat → Option T
  cnt : Nat

def Table.empty {T : Type} : Table T := ⟨fun _ => none, 0⟩

/-- The array with one entry replaced. -/
def Table.set {T : Type} (tab : Table T) (k : Nat) (r : T) : Table T :=
  { tab with map := Function.update tab.map k (some r) }

/-- The array with one entry replaced by an insertion. -/
def Table.push {T : Type} (tab : Table T) (k : Nat) (r : T) : Table T :=
  { tab.set k r with cnt := tab.cnt + 1 }

section
variable {T : Type} (tab : Table T)

@[simp] theorem Table.set_cnt (k : Nat) (r : T) : (tab.set k r).cnt = tab.cnt := rfl

@[simp] theorem Table.push_cnt (k : Nat) (r : T) : (tab.push k r).cnt = tab.cnt + 1 := rfl

@[simp] theorem Table.push_map (k : Nat) (r : T) : (tab.push k r).map = (tab.set k r).map := rfl

@[simp] theorem Table.set_map_self (k : Nat) (r : T) : (tab.set k r).map k = some r :=
  Function.update_self k _ _

theorem Table.set_map_of_ne {k j : Nat} (h : j ≠ k) (r : T) : (tab.set k r).map j = tab.map j :=
  Function.update_of_ne h _ _

end

/-- Why an access stops the program: the table throws `Index is full`, a key is
past the end of its array, or the slot it names holds no cown. -/
inductive Fault where
  | indexIsFull
  | outOfBounds
  | nullCown
deriving DecidableEq

/-- The nine tables. -/
@[ext] structure Database where
  table : (t : TableId) → Table (Row t)

namespace Database

variable {sc : Scale}

def empty : Database := ⟨fun _ => .empty⟩

/-- A slot of a table. -/
abbrev Cell : Type := TableId × Nat

/-- What the slots hold. -/
def obs (db : Database) (c : Cell) : Option (Row c.1) := (db.table c.1).map c.2

/-- Replace a table. -/
def put (db : Database) (t : TableId) (tab : Table (Row t)) : Database :=
  ⟨Function.update db.table t tab⟩

@[simp] theorem put_table_self (db : Database) (t : TableId) (tab : Table (Row t)) :
    (db.put t tab).table t = tab := Function.update_self t _ _

theorem put_table_of_ne (db : Database) {t u : TableId} (h : u ≠ t) (tab : Table (Row t)) :
    (db.put t tab).table u = db.table u := Function.update_of_ne h _ _

/-- The row behind `get_row_addr(key)`. -/
def readRow (sc : Scale) (t : TableId) (key : UInt64) (db : Database) : Except Fault (Row t) :=
  if key < tsize sc t then
    match (db.table t).map key.toNat with
    | some r => .ok r
    | none => .error .nullCown
  else .error .outOfBounds

/-- Assign to the row of an acquired cown. -/
def updateRow (sc : Scale) (t : TableId) (key : UInt64) (f : Row t → Row t) (db : Database) :
    Except Fault Database :=
  (db.readRow sc t key).map fun r => db.put t ((db.table t).set key.toNat (f r))

/-- `insert_row` -/
def insertRow (sc : Scale) (t : TableId) (key : UInt64) (r : Row t) (db : Database) :
    Except Fault Database :=
  if (db.table t).cnt < (tsize sc t).toNat then
    if key < tsize sc t then .ok (db.put t ((db.table t).push key.toNat r))
    else .error .outOfBounds
  else .error .indexIsFull

theorem readRow_ok_iff {t : TableId} {key : UInt64} {db : Database} {r : Row t} :
    db.readRow sc t key = .ok r ↔
      key < tsize sc t ∧ (db.table t).map key.toNat = some r := by
  unfold readRow
  split
  · rename_i h
    cases (db.table t).map key.toNat with
    | none => simp
    | some r' => simp [h]
  · rename_i h
    simp [h]

theorem updateRow_ok_iff {t : TableId} {key : UInt64} {f : Row t → Row t} {db db' : Database} :
    db.updateRow sc t key f = .ok db' ↔
      ∃ r, db.readRow sc t key = .ok r ∧ db' = db.put t ((db.table t).set key.toNat (f r)) := by
  unfold updateRow
  cases db.readRow sc t key with
  | error e => simp [Except.map]
  | ok r => simp [Except.map, eq_comm]

theorem insertRow_ok_iff {t : TableId} {key : UInt64} {r : Row t} {db db' : Database} :
    db.insertRow sc t key r = .ok db' ↔
      (db.table t).cnt < (tsize sc t).toNat ∧ key < tsize sc t ∧
        db' = db.put t ((db.table t).push key.toNat r) := by
  unfold insertRow
  split
  · rename_i h
    split
    · rename_i h'
      simp [h, h', eq_comm]
    · rename_i h'
      simp [h']
  · rename_i h
    simp [h]

theorem readRow_put_of_ne {t u : TableId} (h : u ≠ t) (key : UInt64) (db : Database)
    (tab : Table (Row t)) : (db.put t tab).readRow sc u key = db.readRow sc u key := by
  unfold readRow
  rw [put_table_of_ne db h]

/-! ## Counts -/

theorem updateRow_cnt {t : TableId} {key : UInt64} {f : Row t → Row t} {db db' : Database}
    (h : db.updateRow sc t key f = .ok db') (u : TableId) :
    (db'.table u).cnt = (db.table u).cnt := by
  obtain ⟨r, -, rfl⟩ := updateRow_ok_iff.mp h
  by_cases hu : u = t
  · subst hu
    rw [put_table_self, Table.set_cnt]
  · rw [put_table_of_ne db hu]

theorem insertRow_cnt {t : TableId} {key : UInt64} {r : Row t} {db db' : Database}
    (h : db.insertRow sc t key r = .ok db') (u : TableId) :
    (db'.table u).cnt = (db.table u).cnt + if u = t then 1 else 0 := by
  obtain ⟨-, -, rfl⟩ := insertRow_ok_iff.mp h
  by_cases hu : u = t
  · subst hu
    rw [put_table_self, Table.push_cnt, if_pos rfl]
  · rw [put_table_of_ne db hu, if_neg hu, Nat.add_zero]

/-! ## Slots -/

/-- Replacing a table by one in which one slot is written. -/
theorem obs_put_self (db : Database) (t : TableId) {tab : Table (Row t)} {k : Nat} {r : Row t}
    (h : tab.map = ((db.table t).set k r).map) : (db.put t tab).obs (t, k) = some r := by
  unfold obs
  rw [put_table_self, h, Table.set_map_self]

theorem obs_put_of_ne (db : Database) (t : TableId) {tab : Table (Row t)} {k : Nat} {r : Row t}
    (h : tab.map = ((db.table t).set k r).map) {c : Cell} (hc : c ≠ (t, k)) :
    (db.put t tab).obs c = db.obs c := by
  obtain ⟨u, j⟩ := c
  unfold obs
  by_cases hu : u = t
  · subst hu
    have hj : j ≠ k := fun hj => hc (hj ▸ rfl)
    rw [put_table_self, h, Table.set_map_of_ne _ hj]
  · rw [put_table_of_ne db hu]

/-! ## Rows stay -/

/-- No slot is emptied. -/
def Extends (db db' : Database) : Prop :=
  ∀ t k, ((db.table t).map k).isSome → ((db'.table t).map k).isSome

theorem Extends.refl (db : Database) : db.Extends db := fun _ _ h => h

theorem Extends.trans {db₁ db₂ db₃ : Database} (h : db₁.Extends db₂) (h' : db₂.Extends db₃) :
    db₁.Extends db₃ := fun t k hk => h' t k (h t k hk)

/-- Replacing a table by one that differs in one slot, which it fills. -/
theorem extends_put (db : Database) (t : TableId) {tab : Table (Row t)} {k : Nat} {r : Row t}
    (h : tab.map = ((db.table t).set k r).map) : db.Extends (db.put t tab) := by
  intro u j hj
  show ((db.put t tab).obs (u, j)).isSome
  by_cases hc : (u, j) = (t, k)
  · cases hc
    rw [db.obs_put_self t h]
    rfl
  · rw [db.obs_put_of_ne t h hc]
    exact hj

theorem updateRow_extends {t : TableId} {key : UInt64} {f : Row t → Row t} {db db' : Database}
    (h : db.updateRow sc t key f = .ok db') : db.Extends db' := by
  obtain ⟨r, -, rfl⟩ := updateRow_ok_iff.mp h
  exact db.extends_put t rfl

theorem insertRow_extends {t : TableId} {key : UInt64} {r : Row t} {db db' : Database}
    (h : db.insertRow sc t key r = .ok db') : db.Extends db' := by
  obtain ⟨-, -, rfl⟩ := insertRow_ok_iff.mp h
  exact db.extends_put t rfl

/-- Every slot of these tables holds a row. -/
def Populated (sc : Scale) (db : Database) : Prop :=
  ∀ t : TableId, t.Static → ∀ k < capacity sc.numWarehouses.toNat t, ((db.table t).map k).isSome

theorem Populated.mono {db db' : Database} (h : db.Populated sc) (he : db.Extends db') :
    db'.Populated sc := fun t ht k hk => he t k (h t ht k hk)

theorem Populated.readRow {db : Database} (h : db.Populated sc) {t : TableId} (ht : t.Static)
    {key : UInt64} (hk : key.toNat < capacity sc.numWarehouses.toNat t) :
    ∃ r, db.readRow sc t key = .ok r := by
  obtain ⟨r, hr⟩ := Option.isSome_iff_exists.mp (h t ht _ hk)
  exact ⟨r, readRow_ok_iff.mpr ⟨lt_tsize hk, hr⟩⟩

end Database

end Doradd.Tpcc
