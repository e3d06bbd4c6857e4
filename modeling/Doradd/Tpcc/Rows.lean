import Doradd.Lib.Updates
import Doradd.Tpcc.Transaction

/-!
# The rows behind the cowns

Of the nine tables the transactions insert into three.  The rows of the others are
made by the generator, and a behaviour only changes the ones that it acquires, each
by a function of that row alone.

* `Behaviour.updates`: the changes that a behaviour makes to these rows;
* `Shows.execute`, `Shows.run`: the tables follow the rows;
* `flatMap_updates_spawn`: a record makes the same changes in both builds.
-/

namespace Doradd.Tpcc

open Lib

/-- What the slots of the tables hold. -/
abbrev Rows : Type := ∀ c : Database.Cell, Option (Row c.1)

/-- A change of one row. -/
abbrev RowUpdate : Type := Update fun c : Database.Cell => Option (Row c.1)

def onRow (t : TableId) (key : UInt64) (f : Row t → Row t) : RowUpdate :=
  ⟨(t, key.toNat), Option.map f⟩

namespace Behaviour

/-- What a behaviour does to the warehouse. -/
def warehouseUpdates (b : Behaviour) : List RowUpdate :=
  if b.withWarehouse then [onRow .warehouse b.txm.warehouseKey (payWarehouse b.txm)] else []

/-- What it does to the other rows. -/
def bodyUpdates : Behaviour → List RowUpdate
  | warehouseOp _ => []
  | newOrder _ txm =>
    onRow .district txm.districtKey takeOrderId ::
      txm.lines.map fun k => onRow .stock (txm.stockKey k) (updateStock txm k)
  | payment _ txm =>
    [onRow .district txm.districtKey (payDistrict txm),
      onRow .customer txm.customerKey (payCustomer txm)]

def updates (b : Behaviour) : List RowUpdate := b.warehouseUpdates ++ b.bodyUpdates

/-- A behaviour as a step on the rows. -/
def step (b : Behaviour) (s : Rows) : Rows := applyAll b.updates s

end Behaviour

/-- The static tables hold the rows `s`. -/
def Shows (db : Database) (s : Rows) : Prop := ∀ c : Database.Cell, c.1.Static → db.obs c = s c

section

variable {sc : Scale} {txm : TPCCTransactionMarshalled} {db db' : Database} {s : Rows}
variable {b : Behaviour} {bs : List Behaviour}

/-! ## The tables follow the rows -/

theorem Shows.updateRow (h : Shows db s) {t : TableId} {key : UInt64} {f : Row t → Row t}
    (hu : db.updateRow sc t key f = .ok db') : Shows db' ((onRow t key f).apply s) := by
  obtain ⟨r, hr, rfl⟩ := Database.updateRow_ok_iff.mp hu
  intro c hc
  by_cases hck : c = (t, key.toNat)
  · subst hck
    have hs : s (t, key.toNat) = some r :=
      (h (t, key.toNat) hc).symm.trans (Database.readRow_ok_iff.mp hr).2
    rw [db.obs_put_self t rfl]
    exact ((onRow t key f).apply_self s).symm ▸ (congrArg (Option.map f) hs).symm
  · rw [db.obs_put_of_ne t rfl hck, (onRow t key f).apply_of_ne s hck]
    exact h c hc

theorem Shows.insertRow (h : Shows db s) {t : TableId} (ht : ¬ t.Static) {key : UInt64} {r : Row t}
    (hi : db.insertRow sc t key r = .ok db') : Shows db' s := by
  obtain ⟨-, -, rfl⟩ := Database.insertRow_ok_iff.mp hi
  intro c hc
  have hck : c ≠ (t, key.toNat) := by
    rintro rfl
    exact ht hc
  rw [db.obs_put_of_ne t (Table.push_map _ _ _) hck]
  exact h c hc

theorem Shows.lines (h : Shows db s) {x : UInt64} {ks : List (Fin 15)}
    (hl : ks.foldlM (updateStockAndInsertOrderLine sc txm x) db = .ok db') :
    Shows db' (applyAll
      (ks.map fun k => onRow .stock (txm.stockKey k) (updateStock txm k)) s) := by
  induction ks generalizing db s with
  | nil =>
    cases foldlM_nil_ok.mp hl
    exact h
  | cons k ks ih =>
    obtain ⟨db₁, hk, hl⟩ := foldlM_cons_ok.mp hl
    simp only [updateStockAndInsertOrderLine, bind_eq_ok] at hk
    obtain ⟨db₀, hu, i, -, hi⟩ := hk
    exact ih ((h.updateRow hu).insertRow (by decide) hi) hl

/-- **Step.**  A behaviour that goes through changes the rows of the static tables
by its updates. -/
theorem Shows.execute (h : Shows db s) (hb : b.execute sc db = .ok db') : Shows db' (b.step s) := by
  obtain ⟨db₁, hw, hb⟩ := bind_eq_ok.mp hb
  have h₁ : Shows db₁ (applyAll b.warehouseUpdates s) := by
    unfold Behaviour.opWarehouse at hw
    unfold Behaviour.warehouseUpdates
    split at hw
    · rename_i hww
      rw [if_pos hww]
      exact h.updateRow hw
    · rename_i hww
      rw [if_neg hww]
      cases hw
      exact h
  unfold Behaviour.step Behaviour.updates
  rw [applyAll_append]
  cases b with
  | warehouseOp txm =>
    cases hb
    exact h₁
  | payment ww txm =>
    obtain ⟨db₂, hd, hc⟩ := bind_eq_ok.mp hb
    exact (h₁.updateRow hd).updateRow hc
  | newOrder ww txm =>
    simp only [Behaviour.body, newOrderBody, bind_eq_ok] at hb
    obtain ⟨d, -, db₂, hu, db₃, hl, db₄, ho, hn⟩ := hb
    exact (((h₁.updateRow hu).lines hl).insertRow (by decide) ho).insertRow (by decide) hn

/-- **Run.** -/
theorem Shows.run (h : Shows db s) (hr : runBehaviours sc bs db = .ok db') :
    Shows db' (exec Behaviour.step bs s) := by
  induction bs generalizing db s with
  | nil =>
    cases foldlM_nil_ok.mp hr
    exact h
  | cons b bs ih =>
    obtain ⟨db₁, hb, hr⟩ := foldlM_cons_ok.mp hr
    exact ih (h.execute hb) hr

theorem shows_obs (db : Database) : Shows db db.obs := fun _ _ => rfl

/-! ## Single rows -/

theorem Shows.map_eq (h : Shows db s) {t : TableId} (ht : t.Static) :
    (db.table t).map = fun k => s (t, k) := funext fun k => h (t, k) ht

/-! ## The updates of a record -/

/-- The changes that a record makes. -/
def recordUpdates (txm : TPCCTransactionMarshalled) : List RowUpdate :=
  (spawn false txm).flatMap Behaviour.updates

/-- **Both builds make the same changes, in the same order.** -/
theorem flatMap_updates_spawn (warehouseSplit : Bool) (txm : TPCCTransactionMarshalled) :
    (spawn warehouseSplit txm).flatMap Behaviour.updates = recordUpdates txm := by
  unfold recordUpdates spawn
  cases warehouseSplit with
  | false => rfl
  | true =>
    simp only [if_true, Bool.false_eq_true, if_false]
    split
    · split <;> rfl
    · split <;> rfl

theorem flatMap_updates_spawned (warehouseSplit : Bool) (log : List TPCCTransactionMarshalled) :
    (spawned warehouseSplit log).flatMap Behaviour.updates = log.flatMap recordUpdates := by
  unfold spawned
  rw [List.flatMap_assoc]
  exact congrArg (log.flatMap ·) (funext (flatMap_updates_spawn warehouseSplit))

/-- **A run, record by record.** -/
theorem Shows.records {warehouseSplit : Bool} {log : List TPCCTransactionMarshalled}
    (h : Shows db s) (hr : runBehaviours sc (spawned warehouseSplit log) db = .ok db') :
    Shows db' (exec (fun txm => applyAll (recordUpdates txm)) log s) := by
  have hexec : exec Behaviour.step (spawned warehouseSplit log) s =
      exec (fun txm => applyAll (recordUpdates txm)) log s := by
    rw [exec_applyAll recordUpdates, ← flatMap_updates_spawned warehouseSplit,
      ← exec_applyAll Behaviour.updates]
    rfl
  rw [← hexec]
  exact h.run hr

end

end Doradd.Tpcc
