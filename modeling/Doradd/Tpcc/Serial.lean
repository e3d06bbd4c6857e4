import Doradd.Lib.Schedule
import Doradd.Lib.Counting
import Doradd.Tpcc.Generated
import Doradd.Tpcc.Footprints

/-!
# Parallel execution of a TPC-C log

The runtime runs the behaviours in any order that keeps the order of every two
that share a cown.

* `Ready.execute`: a log within the capacity of the districts never gets stuck,
  in whatever order it is run;
* `commutes`: behaviours that share no cown commute there;
* `schedule_eq_serial`: every allowed order leaves the database as the log does,
  run one record after the other.
-/

namespace Doradd.Tpcc

open Lib

/-- From `db` the behaviours `bs` can be run in any order: the tables that no cown
protects have room, and the order ids that are left suffice. -/
structure Ready (sc : Scale) (db : Database) (bs : List Behaviour) : Prop where
  valid : ∀ b ∈ bs, b.Valid sc
  populated : db.Populated sc
  room : ∀ t : TableId, ¬ t.Static →
    (db.table t).cnt + 15 * bs.countP Behaviour.isNewOrder ≤ capacity sc.numWarehouses.toNat t
  next : ∀ D : DistrictId sc, ∃ d : District, (db.table .district).map D.index = some d ∧
    3001 ≤ d.dNextOId.toNat ∧ d.dNextOId.toNat + bs.countP D.orders ≤ 6841

section

variable {sc : Scale} {db db' : Database} {b : Behaviour} {bs bs' : List Behaviour}

/-! ## Runs do not get stuck -/

theorem Ready.perm (h : Ready sc db bs) (hp : bs.Perm bs') : Ready sc db bs' where
  valid := fun b hb => h.valid b (hp.mem_iff.mpr hb)
  populated := h.populated
  room := by
    intro t ht
    rw [← hp.countP_eq]
    exact h.room t ht
  next := by
    intro D
    rw [← hp.countP_eq]
    exact h.next D

/-- The order id that the first behaviour would take is in range. -/
theorem Ready.inRange (h : Ready sc db (b :: bs)) : b.InRange sc db := by
  cases b with
  | warehouseOp txm => trivial
  | payment ww txm => trivial
  | newOrder ww txm =>
    have hk : txm.KeysValid sc := (h.valid _ List.mem_cons_self).1
    obtain ⟨d, hd, h₁, h₂⟩ := h.next hk.district
    rw [List.countP_cons_of_pos ((DistrictId.orders_iff hk).mpr hk.districtKey_toNat)] at h₂
    rw [← hk.districtKey_toNat] at hd
    exact ⟨d, Database.readRow_ok_iff.mpr ⟨lt_tsize hk.districtKey_lt, hd⟩, h₁, by omega⟩

theorem Ready.fits (h : Ready sc db (b :: bs)) : b.Fits sc db := by
  have hin := h.inRange
  cases b with
  | warehouseOp txm => trivial
  | payment ww txm => trivial
  | newOrder ww txm =>
    have hk : txm.KeysValid sc := (h.valid _ List.mem_cons_self).1
    obtain ⟨d, hd, h₁, h₂⟩ := hin
    have hlt := hk.district.index_lt
    have hlines := h.room .orderLine (by decide)
    have horder := h.room .order (by decide)
    have hlen := lines_length_le txm
    rw [List.countP_cons_of_pos rfl] at hlines horder
    refine ⟨d, hd, by omega, ?_, by omega, by omega⟩
    rw [hk.districtKey_toNat]
    omega

theorem inserts_le (b : Behaviour) (t : TableId) :
    b.inserts t ≤ 15 * if b.isNewOrder then 1 else 0 := by
  cases b with
  | warehouseOp txm => exact Nat.zero_le _
  | payment ww txm => exact Nat.zero_le _
  | newOrder ww txm =>
    have hlen := lines_length_le txm
    cases t <;> simp only [Behaviour.inserts, Behaviour.isNewOrder, if_true] <;> omega

/-- **Step.**  The first behaviour goes through, and the others can still be run. -/
theorem Ready.execute (h : Ready sc db (b :: bs)) :
    ∃ db', b.execute sc db = .ok db' ∧ Ready sc db' bs := by
  have hv := h.valid b List.mem_cons_self
  rcases execute_ok_or_full hv h.populated h.fits with ⟨db', hok⟩ | ⟨hnew, -, hfull⟩
  · refine ⟨db', hok, fun c hc => h.valid c (List.mem_cons_of_mem b hc),
      h.populated.mono (execute_extends hok), fun t ht => ?_, fun D => ?_⟩
    · have hroom := h.room t ht
      have hins := inserts_le b t
      rw [List.countP_cons] at hroom
      rw [execute_cnt hok t]
      omega
    · obtain ⟨d, hd, h₁, h₂⟩ := h.next D
      obtain ⟨d', hd', hnext⟩ := execute_next hv hok D hd
      refine ⟨d', hd', ?_⟩
      rw [List.countP_cons] at h₂
      rw [hnext]
      split
      · rename_i ho
        rw [if_pos ho] at h₂
        rw [UInt64.toNat_add]
        simp only [UInt64.reduceToNat]
        omega
      · rename_i ho
        rw [if_neg ho] at h₂
        exact ⟨h₁, by omega⟩
  · -- the table of new orders is not full
    have hroom := h.room .newOrder (by decide)
    rw [List.countP_cons_of_pos hnew] at hroom
    omega

/-! ## Behaviours commute -/

/-- Behaviours that share no cown commute where both can be run. -/
theorem execute_comm {a b : Behaviour} (h : Ready sc db (a :: b :: bs)) (hc : ¬ Conflict a b)
    {da dab db₁ dba : Database} (h₁ : a.execute sc db = .ok da) (h₂ : b.execute sc da = .ok dab)
    (h₃ : b.execute sc db = .ok db₁) (h₄ : a.execute sc db₁ = .ok dba) : dab = dba := by
  have h' : Ready sc db (b :: a :: bs) := h.perm (List.Perm.swap b a bs)
  have hva := h.valid a List.mem_cons_self
  have hvb := h'.valid b List.mem_cons_self
  obtain ⟨_, ha, hra⟩ := h.execute
  obtain rfl := Except.ok.inj (h₁.symm.trans ha)
  obtain ⟨_, hb, hrb⟩ := h'.execute
  obtain rfl := Except.ok.inj (h₃.symm.trans hb)
  have hobs := (execute_local hva).comm (execute_local hvb) (disjoint_footprint hc)
    ⟨h.inRange, h₁⟩ ⟨hra.inRange, h₂⟩ ⟨h'.inRange, h₃⟩ ⟨hrb.inRange, h₄⟩
  ext1
  funext t
  have hmap : (dab.table t).map = (dba.table t).map := by
    funext k
    exact congrFun hobs (t, k)
  have hcnt : (dab.table t).cnt = (dba.table t).cnt := by
    rw [execute_cnt h₂ t, execute_cnt h₁ t, execute_cnt h₄ t, execute_cnt h₃ t]
    omega
  cases htab : dab.table t
  cases htab' : dba.table t
  rw [htab, htab'] at hmap hcnt
  simp only at hmap hcnt
  rw [hmap, hcnt]

/-- A step of a run: faults are final. -/
def stepBehaviour (sc : Scale) (b : Behaviour) (s : Except Fault Database) :
    Except Fault Database := s >>= fun db => b.execute sc db

theorem exec_stepBehaviour (bs : List Behaviour) (db : Database) :
    exec (stepBehaviour sc) bs (.ok db) = runBehaviours sc bs db :=
  exec_bind (fun db b => b.execute sc db) bs (.ok db)

theorem commutes (sc : Scale) : Commutes (stepBehaviour sc) Conflict fun s bs =>
    ∃ db, s = .ok db ∧ Ready sc db bs where
  ok_perm := by
    rintro s bs bs' hp ⟨db, hs, h⟩
    exact ⟨db, hs, h.perm hp⟩
  ok_step := by
    rintro s b bs ⟨db, rfl, h⟩
    obtain ⟨db', hok, h'⟩ := h.execute
    exact ⟨db', hok, h'⟩
  comm := by
    rintro s a b bs ⟨db, rfl, h⟩ hc
    obtain ⟨da, ha, hra⟩ := h.execute
    obtain ⟨dab, hab, -⟩ := hra.execute
    obtain ⟨db₁, hb, hrb⟩ := (h.perm (List.Perm.swap b a bs)).execute
    obtain ⟨dba, hba, -⟩ := hrb.execute
    have he := execute_comm h hc ha hab hb hba
    calc stepBehaviour sc b (stepBehaviour sc a (.ok db))
        = stepBehaviour sc b (.ok da) := congrArg (stepBehaviour sc b) ha
      _ = .ok dab := hab
      _ = .ok dba := by rw [he]
      _ = stepBehaviour sc a (.ok db₁) := hba.symm
      _ = stepBehaviour sc a (stepBehaviour sc b (.ok db)) := congrArg (stepBehaviour sc a) hb.symm

theorem Ready.run (h : Ready sc db bs) : ∃ db', runBehaviours sc bs db = .ok db' := by
  obtain ⟨db', hok, -⟩ := foldlM_succeeds (fun db b => Behaviour.execute sc b db)
    (Ready sc) (fun _ _ _ h => h.execute) h
  exact ⟨db', hok⟩

/-! ## The start of a run -/

/-- The NewOrders of district `D` in a log. -/
def DistrictId.receives (D : DistrictId sc) (txm : TPCCTransactionMarshalled) : Bool :=
  txm.txnType = 0 ∧ txm.wId = D.wId ∧ txm.dId = D.dId

theorem countP_orders_spawn (split : Bool) {txm : TPCCTransactionMarshalled} (h : txm.Valid sc)
    (D : DistrictId sc) :
    (spawn split txm).countP D.orders = if D.receives txm then 1 else 0 := by
  unfold spawn DistrictId.receives
  rcases h.type with ht | ht
  · simp only [if_pos ht, if_pos (h.count ht)]
    cases split <;> simp [DistrictId.orders, ht]
  · simp only [if_neg (by rw [ht]; decide : ¬ txm.txnType = 0), if_pos ht]
    cases split <;> simp [DistrictId.orders, ht]

/-- The log and its behaviours agree on the orders of a district. -/
theorem countP_orders_spawned {split : Bool} {log : List TPCCTransactionMarshalled}
    (h : ∀ txm ∈ log, txm.Valid sc) (D : DistrictId sc) :
    (spawned split log).countP D.orders = log.countP D.receives := by
  induction log with
  | nil => rfl
  | cons txm log ih =>
    have htxm := countP_orders_spawn split (h txm List.mem_cons_self) D
    have hlog := ih fun t ht => h t (List.mem_cons_of_mem txm ht)
    unfold spawned at hlog ⊢
    rw [List.flatMap_cons, List.countP_append, htxm, hlog, List.countP_cons, Nat.add_comm]

/-- Within the capacity of every district there are not too many orders. -/
theorem countP_isNewOrder_le {c : Nat} (hv : ∀ b ∈ bs, b.Valid sc)
    (hcap : ∀ D : DistrictId sc, bs.countP D.orders ≤ c) :
    bs.countP Behaviour.isNewOrder ≤ sc.numWarehouses.toNat * 10 * c := by
  refine countP_le_of_labels (fun b => b.txm.districtKey.toNat)
    (fun b hb _ => (hv b hb).keys.districtKey_lt) fun k hk => ?_
  obtain ⟨D, rfl⟩ := DistrictId.exists_index_eq hk
  refine Nat.le_trans (List.countP_mono_left fun b hb hp => ?_) (hcap D)
  rw [Bool.and_eq_true, decide_eq_true_eq] at hp
  cases b with
  | newOrder ww txm => exact (DistrictId.orders_iff (hv _ hb).1).mpr hp.2
  | warehouseOp txm => exact absurd hp.1 Bool.false_ne_true
  | payment ww txm => exact absurd hp.1 Bool.false_ne_true

theorem Generated.ready (hg : Generated sc db) (hv : ∀ b ∈ bs, b.Valid sc)
    (hcap : ∀ D : DistrictId sc, bs.countP D.orders ≤ maxOrderTransactions.toNat) :
    Ready sc db bs where
  valid := hv
  populated := hg.populated
  room := by
    intro t ht
    have hrows := hg.rows t
    have htotal := countP_isNewOrder_le hv hcap
    rw [maxOrderTransactions_toNat] at htotal
    cases t <;> simp only [generatedRows, capacity] at hrows ⊢ <;>
      first | omega | exact absurd (by decide) ht
  next := by
    intro D
    have hsome := hg.populated .district (by decide) D.index D.index_lt
    obtain ⟨d, hd⟩ := Option.isSome_iff_exists.mp hsome
    have hc := hcap D
    rw [maxOrderTransactions_toNat] at hc
    refine ⟨d, hd, ?_⟩
    rw [hg.next D.index d hd]
    simp only [UInt64.reduceToNat]
    omega

/-- **Parallel execution equals serial execution**, in either build and within
the order capacity of the districts: every order of the behaviours that keeps
those sharing a cown in place leaves the database as the log does. -/
theorem schedule_eq_serial (sc : Scale) (draws : Draws) (warehouseSplit : Bool)
    (log : List TPCCTransactionMarshalled) (hlog : ∀ txm ∈ log, txm.Valid sc)
    (hcap : ∀ D : DistrictId sc, log.countP D.receives ≤ maxOrderTransactions.toNat)
    (order : List (Fin (spawned warehouseSplit log).length))
    (h : Allowed Conflict (spawned warehouseSplit log) order) :
    ∃ db db', generate sc draws = .ok db ∧
      runBehaviours sc (spawned warehouseSplit log) db = .ok db' ∧
      runBehaviours sc (order.map (spawned warehouseSplit log).get) db = .ok db' := by
  obtain ⟨db, hdb, hg⟩ := generate_ok sc draws
  have hcap' : ∀ D : DistrictId sc,
      (spawned warehouseSplit log).countP D.orders ≤ maxOrderTransactions.toNat := by
    intro D
    rw [countP_orders_spawned hlog]
    exact hcap D
  have hready := hg.ready (spawned_valid hlog) hcap'
  obtain ⟨db', hserial⟩ := hready.run
  refine ⟨db, db', hdb, hserial, ?_⟩
  rw [← exec_stepBehaviour] at hserial ⊢
  rw [h.exec_eq (commutes sc) ⟨db, rfl, hready⟩, hserial]

end

theorem exampleNewOrders_valid :
    ∀ txm ∈ [exampleNewOrder 1, exampleNewOrder 2], txm.Valid Scale.one := by
  intro txm hmem
  simp only [List.mem_cons, List.not_mem_nil, or_false] at hmem
  rcases hmem with rfl | rfl
  · exact exampleNewOrder_valid (by decide)
  · exact exampleNewOrder_valid (by decide)

/-- The second transaction runs between the two behaviours of the first. -/
theorem schedule_eq_serial_example : ∃ db db', generate Scale.one exampleDraws = .ok db ∧
    runBehaviours Scale.one
      [.warehouseOp (exampleNewOrder 1), .newOrder false (exampleNewOrder 1),
        .warehouseOp (exampleNewOrder 2), .newOrder false (exampleNewOrder 2)] db = .ok db' ∧
    runBehaviours Scale.one
      [.warehouseOp (exampleNewOrder 1), .warehouseOp (exampleNewOrder 2),
        .newOrder false (exampleNewOrder 2), .newOrder false (exampleNewOrder 1)] db = .ok db' :=
  schedule_eq_serial Scale.one exampleDraws true [exampleNewOrder 1, exampleNewOrder 2]
    exampleNewOrders_valid (fun D => List.countP_le_length.trans (by decide))
    [⟨0, by decide⟩, ⟨2, by decide⟩, ⟨3, by decide⟩, ⟨1, by decide⟩] ⟨by decide, by decide⟩

end Doradd.Tpcc
