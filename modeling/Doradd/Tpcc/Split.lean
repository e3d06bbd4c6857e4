import Doradd.Tpcc.Rows
import Doradd.Tpcc.Serial

/-!
# The warehouse split

With `WAREHOUSE_SPLIT` a transaction is two behaviours: one has the warehouse, the
other has the remaining rows, and they run in any order.

* `commutes_rows`: on the rows of the static tables, behaviours that share no cown
  commute in every state;
* `split_changes_nothing`: whatever the order in either build, these rows are the
  same in the end.
-/

namespace Doradd.Tpcc

open Lib

section

variable {sc : Scale} {b : Behaviour}

/-- A behaviour only changes rows that it acquires. -/
theorem updates_acquired {u : RowUpdate} (h : u ∈ b.updates) : ∃ a ∈ b.cowns, a.cell = u.key := by
  unfold Behaviour.updates at h
  rcases List.mem_append.mp h with hw | hb
  · unfold Behaviour.warehouseUpdates at hw
    split at hw
    · rename_i hww
      obtain rfl := List.mem_singleton.mp hw
      refine ⟨(.warehouse, b.txm.warehouseKey), ?_, rfl⟩
      unfold Behaviour.cowns
      rw [if_pos hww]
      exact List.mem_cons_self
    · exact absurd hw List.not_mem_nil
  · have hothers : ∃ a ∈ b.others, a.cell = u.key := by
      cases b with
      | warehouseOp txm => exact absurd hb List.not_mem_nil
      | payment ww txm =>
        simp only [Behaviour.bodyUpdates, List.mem_cons, List.not_mem_nil, or_false] at hb
        rcases hb with rfl | rfl
        · exact ⟨_, List.mem_cons_self, rfl⟩
        · exact ⟨_, List.mem_cons_of_mem _ List.mem_cons_self, rfl⟩
      | newOrder ww txm =>
        rcases List.mem_cons.mp hb with rfl | hs
        · exact ⟨_, List.mem_cons_self, rfl⟩
        · obtain ⟨k, hk, rfl⟩ := List.mem_map.mp hs
          refine ⟨(.stock, txm.stockKey k), ?_, rfl⟩
          exact List.mem_cons_of_mem _ (List.mem_cons_of_mem _
            (List.mem_flatMap.mpr ⟨k, hk, List.mem_cons_self⟩))
    obtain ⟨a, ha, hcell⟩ := hothers
    exact ⟨a, others_subset_cowns ha, hcell⟩

/-- **Footprint of a behaviour on the rows.** -/
theorem step_local (b : Behaviour) : LocalOn (fun s : Rows => s) { c | ∃ a ∈ b.cowns, a.cell = c }
    fun s s' => b.step s = s' :=
  applyAll_local fun _ hu => updates_acquired hu

/-- **On the rows, behaviours that share no cown commute**, in every state. -/
theorem commutes_rows : Commutes Behaviour.step Conflict fun _ _ => True where
  ok_perm := fun _ _ => trivial
  ok_step := fun _ => trivial
  comm := by
    intro s a b _ _ hc
    refine (step_local a).comm (step_local b) ?_ rfl rfl rfl rfl
    rw [Set.disjoint_left]
    rintro c ⟨x, hx, rfl⟩ ⟨y, hy, hxy⟩
    exact hc ⟨x, hx, cell_inj hxy ▸ hy⟩

/-- Every allowed order makes the changes of the log. -/
theorem Shows.schedule {log : List Behaviour} {order : List (Fin log.length)}
    (h : Allowed Conflict log order) {db db' : Database} {s : Rows} (hs : Shows db s)
    (hr : runBehaviours sc (order.map log.get) db = .ok db') :
    Shows db' (applyAll (log.flatMap Behaviour.updates) s) := by
  rw [← exec_applyAll Behaviour.updates]
  have hrun := hs.run hr
  rwa [h.exec_eq commutes_rows trivial] at hrun

/-- The rows of the static tables are the same: warehouses, districts, customers,
stock, and the two tables that no transaction writes. -/
def SameRows (db db' : Database) : Prop :=
  ∀ t : TableId, t.Static → (db.table t).map = (db'.table t).map

/-- **Splitting off the warehouse changes nothing.**  Take an allowed order of the
behaviours of each build.  Both go through on the generated database, and from
whatever database both go through, they leave the same rows. -/
theorem split_changes_nothing (sc : Scale) (draws : Draws) (log : List TPCCTransactionMarshalled)
    (hlog : ∀ txm ∈ log, txm.Valid sc)
    (hcap : ∀ D : DistrictId sc, log.countP D.receives ≤ maxOrderTransactions.toNat)
    (split : List (Fin (spawned true log).length)) (whole : List (Fin (spawned false log).length))
    (hsplit : Allowed Conflict (spawned true log) split)
    (hwhole : Allowed Conflict (spawned false log) whole) :
    (∃ db db₁ db₂, generate sc draws = .ok db ∧
      runBehaviours sc (split.map (spawned true log).get) db = .ok db₁ ∧
      runBehaviours sc (whole.map (spawned false log).get) db = .ok db₂) ∧
    ∀ db db₁ db₂, runBehaviours sc (split.map (spawned true log).get) db = .ok db₁ →
      runBehaviours sc (whole.map (spawned false log).get) db = .ok db₂ → SameRows db₁ db₂ := by
  constructor
  · obtain ⟨db, hdb, hg⟩ := generate_ok sc draws
    have hready : ∀ ws : Bool, Ready sc db (spawned ws log) := by
      intro ws
      refine hg.ready (spawned_valid hlog) fun D => ?_
      rw [countP_orders_spawned hlog]
      exact hcap D
    obtain ⟨db₁, h₁⟩ := ((hready true).perm hsplit.perm_log.symm).run
    obtain ⟨db₂, h₂⟩ := ((hready false).perm hwhole.perm_log.symm).run
    exact ⟨db, db₁, db₂, hdb, h₁, h₂⟩
  · intro db db₁ db₂ h₁ h₂ t ht
    have hs₁ := (shows_obs db).schedule hsplit h₁
    have hs₂ := (shows_obs db).schedule hwhole h₂
    rw [flatMap_updates_spawned] at hs₁ hs₂
    exact (hs₁.map_eq ht).trans (hs₂.map_eq ht).symm

end

/-- The second transaction runs between the two behaviours of the first. -/
theorem split_changes_nothing_example :
    (∃ db db₁ db₂, generate Scale.one exampleDraws = .ok db ∧
      runBehaviours Scale.one
        [.warehouseOp (exampleNewOrder 1), .warehouseOp (exampleNewOrder 2),
          .newOrder false (exampleNewOrder 2), .newOrder false (exampleNewOrder 1)] db = .ok db₁ ∧
      runBehaviours Scale.one
        [.newOrder true (exampleNewOrder 1), .newOrder true (exampleNewOrder 2)] db = .ok db₂) ∧
    ∀ db db₁ db₂,
      runBehaviours Scale.one
        [.warehouseOp (exampleNewOrder 1), .warehouseOp (exampleNewOrder 2),
          .newOrder false (exampleNewOrder 2), .newOrder false (exampleNewOrder 1)] db = .ok db₁ →
      runBehaviours Scale.one
        [.newOrder true (exampleNewOrder 1), .newOrder true (exampleNewOrder 2)] db = .ok db₂ →
      SameRows db₁ db₂ :=
  split_changes_nothing Scale.one exampleDraws [exampleNewOrder 1, exampleNewOrder 2]
    exampleNewOrders_valid (fun D => List.countP_le_length.trans (by decide))
    [⟨0, by decide⟩, ⟨2, by decide⟩, ⟨3, by decide⟩, ⟨1, by decide⟩]
    [⟨0, by decide⟩, ⟨1, by decide⟩] ⟨by decide, by decide⟩ ⟨by decide, by decide⟩

end Doradd.Tpcc
