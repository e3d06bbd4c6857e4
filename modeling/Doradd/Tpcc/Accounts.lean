import Doradd.Tpcc.Stock
import Doradd.Tpcc.System

/-!
# The accounts of a run

The workers run the bodies in any order that keeps conflicting ones apart, and the build
that splits the warehouse off enters a transaction in two behaviours.  The totals are
still those of the behaviours that are done.

* `ledgers_of_run`: what a run of behaviours adds to the accounts;
* `system_ledgers`: so it is in every state that the program reaches, and where no
  transaction is half done the accounts of a warehouse add up;
* `system_stock`: every row of the stock is accounted for in every such state.
-/

namespace Doradd.Tpcc

open Lib

namespace Behaviour

/-- The transaction that a behaviour enters into its warehouse. -/
def charged (b : Behaviour) : Option TPCCTransactionMarshalled :=
  if b.withWarehouse then some b.txm else none

/-- The Payment that a behaviour enters into its district and its customer. -/
def paid : Behaviour → Option TPCCTransactionMarshalled
  | payment _ txm => some txm
  | _ => none

/-- The lines of a behaviour on the stock row in slot `k`. -/
def linesOn (k : Nat) : Behaviour → List Line
  | newOrder _ txm => (txm.lines.filter fun j => (txm.stockKey j).toNat = k).map (Line.mk txm)
  | _ => []

end Behaviour

/-! ## What a behaviour does to a row -/

section

variable {sc : Scale} {b : Behaviour} {bs : List Behaviour}

theorem bodyUpdates_warehouse (b : Behaviour) (s : Rows) (k : Nat) :
    applyAll b.bodyUpdates s (.warehouse, k) = s (.warehouse, k) := by
  cases b with
  | warehouseOp txm => rfl
  | newOrder ww txm =>
    rw [Behaviour.bodyUpdates, applyAll_cons, stockUpdates_apply txm _ (by decide),
      onRow_apply_of_ne (by decide)]
  | payment ww txm =>
    rw [Behaviour.bodyUpdates, applyAll_cons, applyAll_cons, applyAll_nil,
      onRow_apply_of_ne (by decide), onRow_apply_of_ne (by decide)]

theorem warehouseUpdates_of_ne (b : Behaviour) (s : Rows) {t : TableId} (h : t ≠ .warehouse)
    (k : Nat) : applyAll b.warehouseUpdates s (t, k) = s (t, k) := by
  unfold Behaviour.warehouseUpdates
  split
  · rw [applyAll_cons, applyAll_nil, onRow_apply_of_ne h]
  · rfl

theorem step_warehouse (b : Behaviour) (s : Rows) (k : Nat) :
    applyAll b.updates s (.warehouse, k) =
      if b.withWarehouse ∧ k = b.txm.warehouseKey.toNat then
        (s (.warehouse, k)).map (payWarehouse b.txm)
      else s (.warehouse, k) := by
  rw [Behaviour.updates, applyAll_append, bodyUpdates_warehouse]
  unfold Behaviour.warehouseUpdates
  split
  · rename_i hww
    rw [applyAll_cons, applyAll_nil, onRow_apply]
    simp only [hww, true_and]
  · rename_i hww
    rw [applyAll_nil, if_neg fun h => hww h.1]

/-- Is it the part of a transaction that enters the district? -/
def Behaviour.entersDistrict : Behaviour → Bool
  | warehouseOp _ => false
  | _ => true

def Behaviour.onDistrict : Behaviour → District → District
  | payment _ txm => payDistrict txm
  | _ => takeOrderId

theorem step_district (b : Behaviour) (s : Rows) (k : Nat) :
    applyAll b.updates s (.district, k) =
      if b.entersDistrict ∧ k = b.txm.districtKey.toNat then
        (s (.district, k)).map b.onDistrict
      else s (.district, k) := by
  have hrest := warehouseUpdates_of_ne b s (t := .district) (by decide) k
  rw [Behaviour.updates, applyAll_append]
  cases b with
  | warehouseOp txm => exact hrest.trans (if_neg fun h => Bool.false_ne_true h.1).symm
  | newOrder ww txm =>
    rw [Behaviour.bodyUpdates, applyAll_cons, stockUpdates_apply txm _ (by decide), onRow_apply,
      hrest]
    simp only [Behaviour.entersDistrict, true_and]
    rfl
  | payment ww txm =>
    rw [Behaviour.bodyUpdates, applyAll_cons, applyAll_cons, applyAll_nil,
      onRow_apply_of_ne (by decide), onRow_apply, hrest]
    simp only [Behaviour.entersDistrict, true_and]
    rfl

theorem step_customer (b : Behaviour) (s : Rows) (k : Nat) :
    applyAll b.updates s (.customer, k) =
      if b.paid.isSome ∧ k = b.txm.customerKey.toNat then
        (s (.customer, k)).map (payCustomer b.txm)
      else s (.customer, k) := by
  have hrest := warehouseUpdates_of_ne b s (t := .customer) (by decide) k
  rw [Behaviour.updates, applyAll_append]
  cases b with
  | warehouseOp txm => exact hrest.trans (if_neg fun h => Bool.false_ne_true h.1).symm
  | newOrder ww txm =>
    rw [Behaviour.bodyUpdates, applyAll_cons, stockUpdates_apply txm _ (by decide),
      onRow_apply_of_ne (by decide), hrest]
    exact (if_neg fun h => Bool.false_ne_true h.1).symm
  | payment ww txm =>
    rw [Behaviour.bodyUpdates, applyAll_cons, applyAll_cons, applyAll_nil, onRow_apply,
      onRow_apply_of_ne (by decide), hrest]
    simp only [Behaviour.paid, Option.isSome_some, true_and]
    rfl

theorem step_stock (b : Behaviour) (s : Rows) (k : Nat) :
    applyAll b.updates s (.stock, k) =
      (s (.stock, k)).map (exec Line.update (b.linesOn k)) := by
  have hrest := warehouseUpdates_of_ne b s (t := .stock) (by decide) k
  have hid : (s (.stock, k)).map (exec Line.update []) = s (.stock, k) := Option.map_id'
  rw [Behaviour.updates, applyAll_append]
  cases b with
  | warehouseOp txm => exact hrest.trans hid.symm
  | newOrder ww txm =>
    rw [Behaviour.bodyUpdates, applyAll_cons, applyAll_lines, onRow_apply_of_ne (by decide), hrest]
    rfl
  | payment ww txm =>
    rw [Behaviour.bodyUpdates, applyAll_cons, applyAll_cons, applyAll_nil,
      onRow_apply_of_ne (by decide), onRow_apply_of_ne (by decide), hrest]
    exact hid.symm

/-! ## What a run adds to a field -/

/-- A field of a row that is there. -/
theorem behaviours_field {db₀ db : Database} (hrun : runBehaviours sc bs db₀ = .ok db)
    {t : TableId} (ht : t.Static) {key : UInt64} {f : Row t → UInt64}
    {g : Behaviour → Row t → Row t} {amount : Behaviour → UInt64} {hits : Behaviour → Bool}
    (hstep : ∀ b ∈ bs, ∀ s : Rows, applyAll b.updates s (t, key.toNat) =
      if hits b then (s (t, key.toNat)).map (g b) else s (t, key.toNat))
    (hf : ∀ b ∈ bs, ∀ r, f (g b r) = f r + amount b)
    (hs : ((db₀.table t).map key.toNat).isSome) :
    db.field t key f = db₀.field t key f + total amount hits bs := by
  have hcell : (db.table t).map key.toNat = _ := (shows_obs db₀).run hrun (t, key.toNat) ht
  unfold Database.field
  rw [hcell]
  exact exec_field hstep hf hs

/-! ## Accounts -/

/-- The growth of the accounts since `db₀` is what the behaviours `bs` have entered. -/
structure Ledgers (sc : Scale) (bs : List Behaviour) (db₀ db : Database) : Prop where
  warehouses : ∀ w, Within sc.numWarehouses.toNat w → db.wYtd w - db₀.wYtd w =
    total TPCCTransactionMarshalled.amount (fun txm => txm.wId = w)
      (bs.filterMap Behaviour.charged)
  districts : ∀ w d, Within sc.numWarehouses.toNat w → Within 10 d → db.dYtd w d - db₀.dYtd w d =
    total TPCCTransactionMarshalled.amount (fun txm => txm.wId = w && txm.dId = d)
      (bs.filterMap Behaviour.paid)
  customers : ∀ w d c, Within sc.numWarehouses.toNat w → Within 10 d → Within 3000 c →
    db.cYtdPayment w d c - db₀.cYtdPayment w d c =
      total TPCCTransactionMarshalled.amount
        (fun txm => (txm.wId = w && txm.dId = d) && txm.cId = c) (bs.filterMap Behaviour.paid)
  counts : ∀ w d c, Within sc.numWarehouses.toNat w → Within 10 d → Within 3000 c →
    db.cPaymentCnt w d c - db₀.cPaymentCnt w d c = UInt64.ofNat
      ((bs.filterMap Behaviour.paid).countP
        fun txm => (txm.wId = w && txm.dId = d) && txm.cId = c)

section

variable {db₀ db : Database} (hv : ∀ b ∈ bs, b.Valid sc) (hp : db₀.Populated sc)
  (hrun : runBehaviours sc bs db₀ = .ok db)

include hv hp hrun

theorem wYtd_of_run {w : UInt32} (hw : Within sc.numWarehouses.toNat w) :
    db.wYtd w = db₀.wYtd w + total TPCCTransactionMarshalled.amount (fun txm => txm.wId = w)
      (bs.filterMap Behaviour.charged) := by
  rw [total_filterMap]
  have hcharge : total (fun b : Behaviour => b.charged.elim 0 TPCCTransactionMarshalled.amount)
      (fun b => b.charged.any fun txm => txm.wId = w) bs =
        total (fun b => b.txm.amount) (fun b => b.withWarehouse && b.txm.wId = w) bs := by
    refine total_congr fun b _ => ?_
    unfold Behaviour.charged
    cases b.withWarehouse <;> rfl
  rw [hcharge]
  refine behaviours_field hrun (by decide) (g := fun b => payWarehouse b.txm)
    (fun b hb s => ?_) (fun b _ r => rfl) ?_
  · rw [step_warehouse]
    simp only [warehouseKey_eq_iff (hv b hb).keys hw, Bool.and_eq_true, decide_eq_true_eq]
  · have hlt := hw.2
    have hpos := hw.1
    refine hp .warehouse (by decide) _ ?_
    rw [warehouseKey_toNat hpos]
    simp only [capacity]
    omega

theorem dYtd_of_run {w d : UInt32} (hw : Within sc.numWarehouses.toNat w) (hd : Within 10 d) :
    db.dYtd w d = db₀.dYtd w d +
      total TPCCTransactionMarshalled.amount (fun txm => txm.wId = w && txm.dId = d)
        (bs.filterMap Behaviour.paid) := by
  rw [total_filterMap]
  -- a NewOrder hits the row too, and adds nothing
  have hpaid : total (fun b : Behaviour => b.paid.elim 0 TPCCTransactionMarshalled.amount)
      (fun b => b.paid.any fun txm => txm.wId = w && txm.dId = d) bs =
        total (fun b => b.paid.elim 0 TPCCTransactionMarshalled.amount)
          (fun b => b.entersDistrict && (b.txm.wId = w && b.txm.dId = d)) bs := by
    refine total_congr fun b _ => ?_
    cases b with
    | warehouseOp txm => rfl
    | newOrder ww txm => exact (ite_self _).symm
    | payment ww txm => rfl
  rw [hpaid]
  refine behaviours_field hrun (by decide) (g := Behaviour.onDistrict)
    (fun b hb s => ?_) (fun b _ r => ?_) ?_
  · rw [step_district]
    simp only [districtKey_eq_iff (hv b hb).keys hw hd, Bool.and_eq_true, decide_eq_true_eq]
  · cases b with
    | payment ww txm => rfl
    | warehouseOp txm => exact (add_zero _).symm
    | newOrder ww txm => exact (add_zero _).symm
  · refine hp .district (by decide) _ ?_
    rw [districtKey_toNat (⟨w, d, hw, hd⟩ : DistrictId sc)]
    exact DistrictId.index_lt _

/-- A field of the customers that a Payment raises. -/
theorem customer_of_run {w d c : UInt32} (hw : Within sc.numWarehouses.toNat w)
    (hd : Within 10 d) (hc : Within 3000 c) {f : Customer → UInt64}
    {amount : TPCCTransactionMarshalled → UInt64}
    (hf : ∀ txm r, f (payCustomer txm r) = f r + amount txm) :
    db.field .customer (Customer.staticHashKey w d c) f =
      db₀.field .customer (Customer.staticHashKey w d c) f +
        total amount (fun txm => (txm.wId = w && txm.dId = d) && txm.cId = c)
          (bs.filterMap Behaviour.paid) := by
  rw [total_filterMap]
  have hpaid : total (fun b : Behaviour => b.paid.elim 0 amount)
      (fun b => b.paid.any fun txm => (txm.wId = w && txm.dId = d) && txm.cId = c) bs =
        total (fun b => amount b.txm)
          (fun b => b.paid.isSome && ((b.txm.wId = w && b.txm.dId = d) && b.txm.cId = c)) bs := by
    refine total_congr fun b _ => ?_
    cases b <;> rfl
  rw [hpaid]
  refine behaviours_field hrun (by decide) (g := fun b => payCustomer b.txm)
    (fun b hb s => ?_) (fun b _ r => hf b.txm r) ?_
  · rw [step_customer]
    simp only [customerKey_eq_iff (hv b hb).keys hw hd hc, Bool.and_eq_true, decide_eq_true_eq]
  · have hlt := (⟨w, d, hw, hd⟩ : DistrictId sc).index_lt
    have hc' := hc.2
    refine hp .customer (by decide) _ ?_
    rw [customerKey_toNat (⟨w, d, hw, hd⟩ : DistrictId sc) hc]
    simp only [capacity]
    omega

/-- **Run.** -/
theorem ledgers_of_run : Ledgers sc bs db₀ db where
  warehouses w hw := by rw [wYtd_of_run hv hp hrun hw, add_sub_cancel_left]
  districts w d hw hd := by rw [dYtd_of_run hv hp hrun hw hd, add_sub_cancel_left]
  customers w d c hw hd hc := by
    have hf : ∀ txm r, Customer.cYtdPayment (payCustomer txm r) = Customer.cYtdPayment r +
        TPCCTransactionMarshalled.amount txm := fun _ _ => rfl
    have h := customer_of_run hv hp hrun hw hd hc hf
    exact (congrArg (· - db₀.cYtdPayment w d c) h).trans (add_sub_cancel_left _ _)
  counts w d c hw hd hc := by
    have hf : ∀ txm r, Customer.cPaymentCnt (payCustomer txm r) = Customer.cPaymentCnt r +
        (fun _ => 1) txm := fun _ _ => rfl
    have h := customer_of_run hv hp hrun hw hd hc hf
    rw [total_one] at h
    exact (congrArg (· - db₀.cPaymentCnt w d c) h).trans (add_sub_cancel_left _ _)

end

/-! ## Accounts that add up -/

theorem valid_of_paid (hv : ∀ b ∈ bs, b.Valid sc) :
    ∀ txm ∈ bs.filterMap Behaviour.paid, txm.KeysValid sc := by
  intro txm hmem
  obtain ⟨b, hb, hpaid⟩ := List.mem_filterMap.mp hmem
  cases b with
  | warehouseOp txm' => cases hpaid
  | newOrder ww txm' => cases hpaid
  | payment ww txm' =>
    obtain rfl := Option.some.inj hpaid
    exact hv _ hb

/-- In every run, a district grows by what its customers do. -/
theorem Ledgers.district_eq {db₀ db : Database} (h : Ledgers sc bs db₀ db)
    (hv : ∀ b ∈ bs, b.Valid sc) {w d : UInt32} (hw : Within sc.numWarehouses.toNat w)
    (hd : Within 10 d) : db.dYtd w d - db₀.dYtd w d = ((idsUpTo customersPerDistrict).map
      fun c => db.cYtdPayment w d c - db₀.cYtdPayment w d c).sum := by
  rw [h.districts w d hw hd, ← total_eq_sum_totals (nodup_idsUpTo customersPerDistrict)
    TPCCTransactionMarshalled.cId fun txm hmem _ =>
      (mem_idsUpTo (n := customersPerDistrict)).mpr (valid_of_paid hv txm hmem).c]
  refine congrArg List.sum (List.map_congr_left fun c hc => ?_)
  exact (h.customers w d c hw hd ((mem_idsUpTo (n := customersPerDistrict)).mp hc)).symm

theorem charged_spawn {split : Bool} {txm : TPCCTransactionMarshalled} (hv : txm.Valid sc) :
    (spawn split txm).filterMap Behaviour.charged = [txm] := by
  unfold spawn
  rcases hv.type with h | h
  · simp only [h, if_true, hv.count h, and_self]
    cases split <;> rfl
  · simp only [h, if_true]
    cases split <;> rfl

theorem paid_spawn {split : Bool} {txm : TPCCTransactionMarshalled} (hv : txm.Valid sc) :
    (spawn split txm).filterMap Behaviour.paid = if txm.isPayment then [txm] else [] := by
  unfold spawn TPCCTransactionMarshalled.isPayment
  rcases hv.type with h | h
  · simp only [h, if_true, hv.count h, and_self]
    cases split <;> rfl
  · simp only [h, if_true]
    cases split <;> rfl

section

variable {log : List TPCCTransactionMarshalled} (hv : ∀ txm ∈ log, txm.Valid sc)

include hv

theorem charged_spawned (split : Bool) :
    (spawned split log).filterMap Behaviour.charged = log := by
  rw [spawned, List.filterMap_flatMap]
  refine (List.flatMap_congr fun txm hmem => charged_spawn (hv txm hmem)).trans ?_
  exact List.flatMap_singleton' log

theorem paid_spawned (split : Bool) :
    (spawned split log).filterMap Behaviour.paid = log.filter fun txm => txm.isPayment := by
  rw [spawned, List.filterMap_flatMap]
  refine (List.flatMap_congr fun txm hmem => paid_spawn (hv txm hmem)).trans ?_
  induction log with
  | nil => rfl
  | cons txm log ih =>
    rw [List.flatMap_cons, ih fun t ht => hv t (List.mem_cons_of_mem txm ht), List.filter_cons]
    cases txm.isPayment <;> rfl

/-- If every transaction is done in full and no order charges anything, a warehouse grows by
what its districts do. -/
theorem Ledgers.warehouse_eq {split : Bool} {db₀ db : Database}
    (h : Ledgers sc (spawned split log) db₀ db)
    (hzero : ∀ txm ∈ log, txm.txnType = 0 → txm.hAmount = 0) {w : UInt32}
    (hw : Within sc.numWarehouses.toNat w) : db.wYtd w - db₀.wYtd w =
      ((idsUpTo districtsPerWarehouse).map fun d => db.dYtd w d - db₀.dYtd w d).sum := by
  rw [h.warehouses w hw, charged_spawned hv, ← total_eq_sum_totals
    (nodup_idsUpTo districtsPerWarehouse) TPCCTransactionMarshalled.dId fun txm hmem _ =>
      (mem_idsUpTo (n := districtsPerWarehouse)).mpr (hv txm hmem).keys.d]
  refine congrArg List.sum (List.map_congr_left fun d hd => ?_)
  rw [h.districts w d hw ((mem_idsUpTo (n := districtsPerWarehouse)).mp hd), paid_spawned hv,
    ← List.filterMap_eq_filter, total_filterMap]
  refine total_congr fun txm hmem => ?_
  rcases (hv txm hmem).type with ht | ht
  · have hamount : txm.amount = 0 := by
      unfold TPCCTransactionMarshalled.amount
      rw [hzero txm hmem ht]
      rfl
    have hno : Option.guard (fun txm => txm.isPayment) txm = none := by
      simp [Option.guard, TPCCTransactionMarshalled.isPayment, ht]
    rw [hamount, ite_self, hno, Option.any_none, if_neg Bool.false_ne_true]
  · have hyes : Option.guard (fun txm => txm.isPayment) txm = some txm := by
      simp [Option.guard, TPCCTransactionMarshalled.isPayment, ht]
    rw [hyes]
    rfl

end

end

/-! ## Stock -/

section

variable {sc : Scale} {bs : List Behaviour}

/-- A stock row after a run of behaviours. -/
theorem stock_of_run {db₀ db : Database} (hrun : runBehaviours sc bs db₀ = .ok db) (k : Nat) :
    (db.table .stock).map k = ((db₀.table .stock).map k).map
      (exec Line.update (bs.flatMap (Behaviour.linesOn k))) := by
  have hexec : ∀ s : Rows, exec Behaviour.step bs s (.stock, k) =
      (s (.stock, k)).map (exec Line.update (bs.flatMap (Behaviour.linesOn k))) := by
    clear hrun
    induction bs with
    | nil => exact fun s => Option.map_id'.symm
    | cons b bs ih =>
      intro s
      rw [exec_cons, ih, Behaviour.step, step_stock, Option.map_map, List.flatMap_cons]
      exact congrArg (Option.map · _) (funext fun r => (exec_append Line.update _ _ r).symm)
  have hstatic : TableId.Static .stock := by decide
  have hcell : (db.table .stock).map k = _ := (shows_obs db₀).run hrun (.stock, k) hstatic
  rw [hcell, hexec]
  rfl

end

/-! ## The program -/

/-- A transaction of the default build is one behaviour. -/
theorem spawned_false {sc : Scale} {log : List TPCCTransactionMarshalled}
    (hv : ∀ txm ∈ log, txm.Valid sc) : spawned false log = log.map fun txm =>
      if txm.txnType = 0 then .newOrder true txm else .payment true txm := by
  rw [List.map_eq_flatMap]
  refine List.flatMap_congr fun txm hmem => ?_
  unfold spawn
  rcases (hv txm hmem).type with h | h
  · simp only [h, if_true, (hv txm hmem).count h, and_self, Bool.false_eq_true, if_false]
  · simp only [h, if_true, Bool.false_eq_true, if_false]
    rfl

namespace Launch

variable {L : Launch} {es : List Nat}
  {t : Behaviours When (Except Fault Database)}

/-- No transaction is half done. -/
theorem Serial.whole (h : L.Serial es t) (hv : ∀ txm ∈ L.txms es, txm.Valid L.sc)
    (hw : L.warehouseSplit = false ∨ t.AllDone) : ∃ log : List TPCCTransactionMarshalled,
      log.Sublist (L.txms es) ∧ L.finished t = Tpcc.spawned L.warehouseSplit log := by
  rcases hw with hsplit | hall
  · have hsub := finished_sublist h.spawned
    rw [hsplit, spawned_false hv] at hsub
    obtain ⟨log, hlog, heq⟩ := List.sublist_map_iff.mp hsub
    refine ⟨log, hlog, heq.trans ?_⟩
    rw [hsplit, spawned_false fun txm hmem => hv txm (hlog.subset hmem)]
  · exact ⟨L.txms es, List.Sublist.refl _, h.allDone hall⟩

end Launch

/-- **The ledgers in every state that the program reaches.**  Every account has grown by what
the behaviours that are done have entered, and a district by what its customers have; the
same holds of a warehouse and its districts where no transaction is half done. -/
theorem system_ledgers (L : Launch) (tr : List (System.Label Pipeline.Label Nat)) {s}
    (h : L.program.machine.run tr = some s) (hstep : L.program.InStep tr)
    (hcap : L.WithinCapacity (Pipeline.dispatched (System.threads tr))) :
    ∃ db₀ db, generate L.sc L.draws = .ok db₀ ∧ s.runtime.state = .ok db ∧
      Ledgers L.sc (L.finished s.runtime) db₀ db ∧
      (∀ w d, Within L.sc.numWarehouses.toNat w → Within 10 d → db.dYtd w d - db₀.dYtd w d =
        ((idsUpTo customersPerDistrict).map
          fun c => db.cYtdPayment w d c - db₀.cYtdPayment w d c).sum) ∧
      ((L.warehouseSplit = false ∨ s.runtime.AllDone) →
        (∀ a ∈ Pipeline.dispatched (System.threads tr), (L.txm a).txnType = 0 →
          (L.txm a).hAmount = 0) →
        ∀ w, Within L.sc.numWarehouses.toNat w → db.wYtd w - db₀.wYtd w =
          ((idsUpTo districtsPerWarehouse).map fun d => db.dYtd w d - db₀.dYtd w d).sum) := by
  obtain ⟨es, hdisp, hvalid, hserial⟩ := Launch.exists_serial h hstep hcap
  obtain ⟨db₀, db, hgen, hstate, hrun⟩ := hserial.state
  obtain ⟨db₁, hdb₁, hg⟩ := generate_holds L.sc L.draws
  obtain rfl := Except.ok.inj (hdb₁.symm.trans hgen)
  have hled := ledgers_of_run hserial.valid hg.generated.populated hrun
  refine ⟨_, db, hgen, hstate, hled, fun w d hw hd => hled.district_eq hserial.valid hw hd,
    fun hwhole hzero w hw => ?_⟩
  obtain ⟨log, hlog, hfin⟩ := hserial.whole hvalid hwhole
  rw [hfin] at hled
  refine hled.warehouse_eq (fun txm hmem => hvalid txm (hlog.subset hmem))
    (fun txm hmem => ?_) hw
  obtain ⟨k, hk, rfl⟩ := List.mem_map.mp (hlog.subset hmem)
  exact hzero _ (hdisp ▸ List.mem_map_of_mem hk)

/-- **The stock in every state that the program reaches.**  Every row is accounted for by the
lines of the orders that are done, in the order in which they were spawned. -/
theorem system_stock (L : Launch) (tr : List (System.Label Pipeline.Label Nat)) {s}
    (h : L.program.machine.run tr = some s) (hstep : L.program.InStep tr)
    (hcap : L.WithinCapacity (Pipeline.dispatched (System.threads tr)))
    (hqty : ∀ a ∈ Pipeline.dispatched (System.threads tr), (L.txm a).txnType = 0 →
      ∀ j ∈ (L.txm a).lines, Within 10 ((L.txm a).iQty j)) :
    ∃ db₀ db, generate L.sc L.draws = .ok db₀ ∧ s.runtime.state = .ok db ∧
      ∀ k s₀, (db₀.table .stock).map k = some s₀ → ∃ st, (db.table .stock).map k = some st ∧
        StockAccounted s₀.sQuantity ((L.finished s.runtime).flatMap (Behaviour.linesOn k))
          (restocks ((L.finished s.runtime).flatMap (Behaviour.linesOn k)) s₀) st := by
  obtain ⟨es, hdisp, -, hserial⟩ := Launch.exists_serial h hstep hcap
  obtain ⟨db₀, db, hgen, hstate, hrun⟩ := hserial.state
  refine ⟨db₀, db, hgen, hstate, fun k s₀ hs₀ => ?_⟩
  obtain ⟨hq₀, hytd, hcnt, -⟩ := generated_stock hgen hs₀
  have hrow := stock_of_run hrun k
  rw [hs₀, Option.map_some] at hrow
  refine ⟨_, hrow, stockAccounted_run (fun l hl => ?_) hq₀ ⟨hytd, hcnt⟩⟩
  obtain ⟨b, hb, hl⟩ := List.mem_flatMap.mp hl
  obtain ⟨txm, hmem, hspawn⟩ :=
    List.mem_flatMap.mp ((Launch.finished_sublist hserial.spawned).subset hb)
  obtain ⟨e, he, rfl⟩ := List.mem_map.mp hmem
  cases b with
  | warehouseOp txm' => cases hl
  | payment ww txm' => cases hl
  | newOrder ww txm' =>
    obtain ⟨j, hj, rfl⟩ := List.mem_map.mp hl
    rcases spawn_cases hspawn with ⟨ht, -, hb | ⟨ww', hb⟩⟩ | ⟨-, hb | ⟨ww', hb⟩⟩
    · cases hb
    · cases hb
      exact hqty _ (hdisp ▸ List.mem_map_of_mem he) ht j (List.mem_filter.mp hj).1
    · cases hb
    · cases hb

/-! ## One order -/

theorem exampleRecord_consumed : GenLog.Consumed 0 GenLog.exampleOrder
    (exampleLaunch.txm (exampleLaunch.setup.log.record 0)) :=
  ((GenLog.genLog_records exampleRecords_fits exampleMapped_eq).2.2 0 (by decide)).1

/-- The order has taken its id and charged nothing. -/
theorem system_ledgers_example : ∃ s db₀ db,
    exampleLaunch.program.machine.run (exampleThreads.map .thread) = some s ∧
      generate Scale.one exampleDraws = .ok db₀ ∧ s.runtime.state = .ok db ∧
      Ledgers Scale.one (exampleLaunch.finished s.runtime) db₀ db := by
  obtain ⟨s, hs, hstep⟩ := exampleThreads_run
  obtain ⟨db₀, db, hgen, hstate, hled, -⟩ :=
    system_ledgers exampleLaunch _ hs hstep exampleThreads_room
  exact ⟨s, db₀, db, hs, hgen, hstate, hled⟩

/-- It takes seven pieces of each item. -/
theorem system_stock_example : ∃ s db₀ db,
    exampleLaunch.program.machine.run (exampleThreads.map .thread) = some s ∧
      generate Scale.one exampleDraws = .ok db₀ ∧ s.runtime.state = .ok db ∧
      ∀ k s₀, (db₀.table .stock).map k = some s₀ → ∃ st, (db.table .stock).map k = some st ∧
        10 ≤ st.sQuantity ∧ st.sQuantity ≤ 100 := by
  obtain ⟨s, hs, hstep⟩ := exampleThreads_run
  have hqty : ∀ a ∈ Pipeline.dispatched (System.threads (exampleThreads.map
      (@System.Label.thread _ Nat))), (exampleLaunch.txm a).txnType = 0 →
        ∀ j ∈ (exampleLaunch.txm a).lines, Within 10 ((exampleLaunch.txm a).iQty j) := by
    intro a ha _ j hj
    rw [System.threads_map_thread] at ha
    obtain rfl : a = exampleLaunch.setup.log.record 0 := List.mem_singleton.mp ha
    have hq := List.mem_map_of_mem
      (f := fun k => ((exampleLaunch.txm (exampleLaunch.setup.log.record 0)).iQty k).toNat) hj
    rw [exampleRecord_consumed.iQtys] at hq
    have hseven := List.eq_of_mem_replicate (n := 5) (a := 7) hq
    exact ⟨by omega, by omega⟩
  obtain ⟨db₀, db, hgen, hstate, hstock⟩ :=
    system_stock exampleLaunch _ hs hstep exampleThreads_room hqty
  refine ⟨s, db₀, db, hs, hgen, hstate, fun k s₀ hs₀ => ?_⟩
  obtain ⟨st, hst, hacc⟩ := hstock k s₀ hs₀
  exact ⟨st, hst, hacc.range⟩

end Doradd.Tpcc
