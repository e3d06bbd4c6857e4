import Mathlib.Data.Set.Card
import Doradd.Tpcc.Orders
import Doradd.Tpcc.System

/-!
# The order tables of a run

Within the capacity of the districts every NewOrder gets the next id of its district, its
order and its mark get slots of their own, and nothing else is in these tables.

* `Filled.push`: a row that is filed into a free slot;
* `run_consistent`: so it is after any sequence of behaviours;
* `system_consistent`: so it is in every state that the program reaches, whatever the
  threads and the workers have done so far.
-/

namespace Doradd.Tpcc

open Lib

/-! ## Counts of rows -/

section

variable {T : Type} {tab : Table T}

/-- The slots that hold a row. -/
def Table.slots (tab : Table T) : Set Nat := { k | (tab.map k).isSome }

theorem Table.slots_push (tab : Table T) (k : Nat) (r : T) :
    (tab.push k r).slots = insert k tab.slots := by
  ext j
  rw [Set.mem_insert_iff, slots, slots, Set.mem_ofPred_eq, Set.mem_ofPred_eq, push_map]
  by_cases hj : j = k
  · rw [hj, set_map_self]
    exact iff_of_true rfl (Or.inl rfl)
  · rw [set_map_of_ne tab hj, or_iff_right hj]

/-- The count is that of the rows. -/
structure Table.Counted (tab : Table T) : Prop where
  finite : tab.slots.Finite
  cnt : tab.cnt = tab.slots.ncard

theorem Table.Counted.push (h : tab.Counted) {k : Nat} (hk : k ∉ tab.slots) (r : T) :
    (tab.push k r).Counted := by
  constructor
  · rw [slots_push]
    exact h.finite.insert k
  · rw [slots_push, push_cnt, h.cnt, Set.ncard_insert_of_notMem hk h.finite]

end

/-! ## Tables of orders -/

/-- The rows of a table are the ones with the ids from `first` on of every district, each in
its slot, and they are counted. -/
structure Filled {T : Type} (sc : Scale) (bs : List Behaviour) (ids : T → UInt32 × UInt32 × Nat)
    (first : Nat) (tab : Table T) : Prop where
  filed : Filed sc bs ids first tab
  only : ∀ k r, tab.map k = some r → ∃ (D : DistrictId sc) (o : Nat), first ≤ o ∧
    o ≤ 3000 + bs.countP D.orders ∧ k = D.index * 6840 + (o - 1) ∧ ids r = (D.wId, D.dId, o)
  counted : tab.Counted

section

variable {sc : Scale} {db db' : Database} {b : Behaviour} {bs : List Behaviour}

/-- **A row is filed into a free slot.** -/
theorem Filled.push {T : Type} {ids : T → UInt32 × UInt32 × Nat} {first : Nat} {tab : Table T}
    (hf : Filled sc bs ids first tab) (h₁ : 1 ≤ first) (h₂ : first ≤ 3001)
    (hs : WithinSlots sc (bs ++ [b])) {D : DistrictId sc}
    (hD : ∀ E : DistrictId sc, E.orders b = true ↔ E = D) {r : T}
    (hr : ids r = (D.wId, D.dId, 3001 + bs.countP D.orders)) :
    Filled sc (bs ++ [b]) ids first
      (tab.push (D.index * 6840 + (3000 + bs.countP D.orders)) r) := by
  have hfree : D.index * 6840 + (3000 + bs.countP D.orders) ∉ tab.slots := by
    intro hslot
    obtain ⟨r', hr'⟩ := Option.isSome_iff_exists.mp hslot
    obtain ⟨E, o, ho, ho', hk, -⟩ := hf.only _ _ hr'
    exact hs.slot_ne ((hD D).mpr rfl) (Nat.le_trans h₁ ho) ho' hk.symm
  refine ⟨hf.filed.push h₁ hs hD hr, fun k r' hr' => ?_, hf.counted.push hfree r⟩
  rw [Table.push_map] at hr'
  by_cases hk : k = D.index * 6840 + (3000 + bs.countP D.orders)
  · subst hk
    rw [Table.set_map_self, Option.some.injEq] at hr'
    subst hr'
    refine ⟨D, 3001 + bs.countP D.orders, by omega, ?_, by omega, hr⟩
    rw [countP_snoc, if_pos ((hD D).mpr rfl)]
    omega
  · rw [Table.set_map_of_ne _ hk] at hr'
    obtain ⟨E, o, ho, ho', hslot, hids⟩ := hf.only k r' hr'
    refine ⟨E, o, ho, ?_, hslot, hids⟩
    rw [countP_snoc]
    omega

/-- Behaviours that take no id change neither the table nor the ids. -/
theorem Filled.congr {T : Type} {ids : T → UInt32 × UInt32 × Nat} {first : Nat} {tab : Table T}
    (hf : Filled sc bs ids first tab)
    (hno : ∀ D : DistrictId sc, (bs ++ [b]).countP D.orders = bs.countP D.orders) :
    Filled sc (bs ++ [b]) ids first tab := by
  refine ⟨fun D o h₁ h₂ => ?_, fun k r hr => ?_, hf.counted⟩
  · rw [hno] at h₂
    exact hf.filed D o h₁ h₂
  · obtain ⟨D, o, h₁, h₂, hslot, hids⟩ := hf.only k r hr
    exact ⟨D, o, h₁, by rwa [hno], hslot, hids⟩

/-! ## The generated orders -/

/-- There are no more rows than insertions. -/
theorem slots_le_cnt {is : List Insert} (h : insertAll sc is .empty = .ok db) (t : TableId) :
    (db.table t).slots.Finite ∧ (db.table t).slots.ncard ≤ (db.table t).cnt := by
  refine foldlM_keeps (P := fun db : Database =>
    (db.table t).slots.Finite ∧ (db.table t).slots.ncard ≤ (db.table t).cnt) ?_ ?_ h
  · intro i _ db₁ db₂ hP hi
    obtain ⟨-, -, rfl⟩ := Database.insertRow_ok_iff.mp hi
    by_cases ht : t = i.table
    · subst ht
      rw [Database.put_table_self, Table.slots_push, Table.push_cnt]
      exact ⟨hP.1.insert _, (Set.ncard_insert_le _ _).trans (Nat.succ_le_succ hP.2)⟩
    · rw [Database.put_table_of_ne _ ht]
      exact hP
  · have hempty : (Database.empty.table t).slots = ∅ := by
      ext k
      exact iff_of_false Bool.false_ne_true (Set.notMem_empty k)
    rw [hempty]
    exact ⟨Set.finite_empty, (Set.ncard_empty ℕ).trans_le (Nat.zero_le _)⟩

/-- The orders that were generated are all there. -/
theorem Filed.le_ncard {T : Type} {ids : T → UInt32 × UInt32 × Nat} {tab : Table T}
    (hf : Filed sc [] ids 1 tab) (hfin : tab.slots.Finite) :
    sc.numWarehouses.toNat * 30000 ≤ tab.slots.ncard := by
  have hinj : Function.Injective fun i : Nat => i / 3000 * 6840 + i % 3000 := by
    intro i j hij
    simp only at hij
    omega
  have hsub : (((Finset.range (sc.numWarehouses.toNat * 30000)).image
      fun i => i / 3000 * 6840 + i % 3000 : Finset Nat) : Set Nat) ⊆ tab.slots := by
    intro k hk
    rw [Finset.mem_coe, Finset.mem_image] at hk
    obtain ⟨i, hi, rfl⟩ := hk
    rw [Finset.mem_range] at hi
    obtain ⟨D, hD⟩ := @DistrictId.exists_index_eq sc (i / 3000) (by omega)
    obtain ⟨r, hr, -⟩ := hf D (i % 3000 + 1) (by omega) (by rw [List.countP_nil]; omega)
    rw [hD, Nat.add_sub_cancel] at hr
    exact Option.isSome_iff_exists.mpr ⟨r, hr⟩
  have hle := Set.ncard_le_ncard hsub hfin
  rwa [Set.ncard_coe_finset, Finset.card_image_of_injective _ hinj, Finset.card_range] at hle

theorem filled_orders {draws : Draws} (hdb : generate sc draws = .ok db)
    (h : Holds sc draws db) : Filled sc [] Order.ids 1 (db.table .order) := by
  obtain ⟨hfin, hle⟩ := slots_le_cnt hdb .order
  have hfiled := h.generated.kept.orders
  refine ⟨hfiled, fun k r hr => ?_, hfin, ?_⟩
  · obtain ⟨p, hp, hrow⟩ := h.only hr
    cases p with
    | order D o ho =>
      refine ⟨D, o.toNat, ho.1, ?_, hp.symm, ?_⟩
      · rw [List.countP_nil]
        exact ho.2
      · rw [← hrow]
        exact Prod.ext rfl (Prod.ext rfl (UInt32.toNat_toUInt64 o))
  · have hrows := h.rows .order
    have hmany := hfiled.le_ncard hfin
    simp only [generatedRows] at hrows
    omega

theorem filled_newOrders {draws : Draws} (hdb : generate sc draws = .ok db)
    (h : Holds sc draws db) : Filled sc [] NewOrder.ids 3001 (db.table .newOrder) := by
  obtain ⟨hfin, hle⟩ := slots_le_cnt hdb .newOrder
  have hnone := h.generated.noNewOrders
  refine ⟨h.generated.kept.newOrders, fun k r hr => ?_, hfin, ?_⟩
  · rw [hnone k] at hr
    cases hr
  · have hrows := h.rows .newOrder
    simp only [generatedRows] at hrows
    omega

/-! ## Runs -/

/-- The order tables after the behaviours `bs`. -/
structure Consistent (sc : Scale) (bs : List Behaviour) (db : Database) : Prop where
  next : ∀ D : DistrictId sc, ∃ d : District, (db.table .district).map D.index = some d ∧
    d.dNextOId.toNat = 3001 + bs.countP D.orders
  orders : Filled sc bs Order.ids 1 (db.table .order)
  newOrders : Filled sc bs NewOrder.ids 3001 (db.table .newOrder)
  marks : (db.table .newOrder).cnt = bs.countP Behaviour.isNewOrder

theorem withinSlots_of_room
    (hroom : ∀ D : DistrictId sc, bs.countP D.orders ≤ maxOrderTransactions.toNat) :
    WithinSlots sc bs where
  share := fun D _ => hroom D
  last := by
    intro D hD
    have hD' := hroom D
    rw [maxOrderTransactions_toNat] at hD'
    rw [tsize_toNat, stride_toNat]
    simp only [capacity]
    omega

/-- **Step.** -/
theorem Consistent.step (hc : Consistent sc bs db) (hi : RunInv sc bs db)
    (hs : WithinSlots sc (bs ++ [b])) (hv : b.Valid sc) (h : b.execute sc db = .ok db') :
    Consistent sc (bs ++ [b]) db' := by
  have hnext := hi.step hv h
  cases hb : b.isNewOrder with
  | false =>
    have hno : ∀ D : DistrictId sc, (bs ++ [b]).countP D.orders = bs.countP D.orders := by
      intro D
      rw [countP_snoc, if_neg fun ho => ?_, Nat.add_zero]
      exact Bool.false_ne_true (hb.symm.trans (DistrictId.orders_isNewOrder ho))
    refine ⟨hnext.next, ?_, ?_, hnext.count⟩
    · rw [execute_other hb h (by decide)]
      exact hc.orders.congr hno
    · rw [execute_other hb h (by decide)]
      exact hc.newOrders.congr hno
  | true =>
    cases b with
    | warehouseOp txm => exact absurd hb Bool.false_ne_true
    | payment ww txm => exact absurd hb Bool.false_ne_true
    | newOrder ww txm =>
      obtain ⟨D, hD, -, ⟨r, hr, hrids⟩, ⟨k, n, hn, -, hnids⟩⟩ := hi.placed hv h
      have hid := hs.id_lt D
      rw [countP_snoc, if_pos ((hD D).mpr rfl)] at hid
      obtain ⟨rfl, hids⟩ := hnids (by omega)
      refine ⟨hnext.next, ?_, ?_, hnext.count⟩
      · rw [hr]
        exact hc.orders.push (by decide) (by decide) hs hD hrids
      · rw [hn]
        exact hc.newOrders.push (by decide) (by decide) hs hD hids

/-- **Run.** -/
theorem run_consistent {draws : Draws} (hdb : generate sc draws = .ok db)
    (hv : ∀ b ∈ bs, b.Valid sc) (hs : WithinSlots sc bs)
    (h : runBehaviours sc bs db = .ok db') : Consistent sc bs db' := by
  obtain ⟨db₀, hdb₀, hg⟩ := generate_holds sc draws
  obtain rfl := Except.ok.inj (hdb₀.symm.trans hdb)
  induction bs using List.reverseRecOn generalizing db' with
  | nil =>
    cases foldlM_nil_ok.mp h
    exact ⟨hg.generated.runInv.next, filled_orders hdb hg, filled_newOrders hdb hg,
      hg.generated.runInv.count⟩
  | append_singleton bs b ih =>
    obtain ⟨db₁, h₁, hb⟩ := foldlM_snoc_ok.mp h
    have hv₀ : ∀ c ∈ bs, c.Valid sc := fun c hc => hv c (List.mem_append_left _ hc)
    exact (ih hv₀ hs.init h₁).step (run_inv hg.generated hv₀ h₁) hs
      (hv b (List.mem_append_right _ (List.mem_singleton_self b))) hb

end

/-- **The order tables are consistent in every state that the program reaches** within the
capacity of the districts. -/
theorem system_consistent (L : Launch) (tr : List (System.Label Pipeline.Label Nat)) {s}
    (h : L.program.machine.run tr = some s) (hstep : L.program.InStep tr)
    (hcap : L.WithinCapacity (Pipeline.dispatched (System.threads tr))) :
    ∃ db, s.runtime.state = .ok db ∧ Consistent L.sc (L.finished s.runtime) db := by
  obtain ⟨es, -, -, hserial⟩ := Launch.exists_serial h hstep hcap
  obtain ⟨db, db', hdb, hstate, hrun⟩ := hserial.state
  exact ⟨db', hstate, run_consistent hdb hserial.valid (withinSlots_of_room hserial.room) hrun⟩

theorem system_consistent_example : ∃ s db,
    exampleLaunch.program.machine.run (exampleThreads.map .thread) = some s ∧
      s.runtime.state = .ok db ∧
      Consistent Scale.one (exampleLaunch.finished s.runtime) db := by
  obtain ⟨s, hs, hstep⟩ := exampleThreads_run
  obtain ⟨db, hdb, hc⟩ := system_consistent exampleLaunch _ hs hstep exampleThreads_room
  exact ⟨s, db, hs, hdb, hc⟩

end Doradd.Tpcc
