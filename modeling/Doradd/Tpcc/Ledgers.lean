import Mathlib.Data.UInt
import Doradd.Lib.Totals
import Doradd.Tpcc.Split

/-!
# The ledgers

A Payment is entered three times: into the year-to-date totals of its warehouse,
of its district and of its customer.  A NewOrder adds the same word of its record to
the warehouse, where the log generator leaves a zero.

* `record_warehouse`, `record_district`, `record_customer`: what a record does to a
  row of each ledger;
* `exec_field`: what a run adds to a field;
* `ledgers_agree`: the three ledgers have grown by the same amounts, in the 64-bit
  arithmetic of the fields.
-/

namespace Doradd.Tpcc

open Lib

/-! ## The ledgers -/

/-- A field of the row that a key leads to. -/
def Database.field (db : Database) (t : TableId) (key : UInt64) (f : Row t → UInt64) : UInt64 :=
  ((db.table t).map key.toNat).elim 0 f

def Database.wYtd (db : Database) (w : UInt32) : UInt64 :=
  db.field .warehouse (Warehouse.staticHashKey w) Warehouse.wYtd

def Database.dYtd (db : Database) (w d : UInt32) : UInt64 :=
  db.field .district (District.staticHashKey w d) District.dYtd

def Database.cYtdPayment (db : Database) (w d c : UInt32) : UInt64 :=
  db.field .customer (Customer.staticHashKey w d c) Customer.cYtdPayment

def Database.cPaymentCnt (db : Database) (w d c : UInt32) : UInt64 :=
  db.field .customer (Customer.staticHashKey w d c) Customer.cPaymentCnt

namespace TPCCTransactionMarshalled

variable (txm : TPCCTransactionMarshalled)

def amount : UInt64 := txm.hAmount.toUInt64

def isPayment : Bool := txm.txnType = 1

/-- The Payments of a warehouse, of a district and of a customer. -/
def paysIn (w : UInt32) : Bool := txm.isPayment && txm.wId = w

def paysAt (w d : UInt32) : Bool := txm.paysIn w && txm.dId = d

def paysBy (w d c : UInt32) : Bool := txm.paysAt w d && txm.cId = c

end TPCCTransactionMarshalled

/-- The growth of every account since `db₀` is the growth of the accounts below it,
and what has been paid. -/
structure LedgersAgree (sc : Scale) (log : List TPCCTransactionMarshalled) (db₀ db : Database) :
    Prop where
  populated : db₀.Populated sc ∧ db.Populated sc
  warehouses : ∀ w, Within sc.numWarehouses.toNat w → db.wYtd w - db₀.wYtd w =
    ((idsUpTo districtsPerWarehouse).map fun d => db.dYtd w d - db₀.dYtd w d).sum
  districts : ∀ w d, Within sc.numWarehouses.toNat w → Within 10 d → db.dYtd w d - db₀.dYtd w d =
    ((idsUpTo customersPerDistrict).map fun c => db.cYtdPayment w d c - db₀.cYtdPayment w d c).sum
  payments : ∀ w d, Within sc.numWarehouses.toNat w → Within 10 d → db.dYtd w d - db₀.dYtd w d =
    total TPCCTransactionMarshalled.amount (fun txm => txm.paysAt w d) log
  counts : ∀ w d c, Within sc.numWarehouses.toNat w → Within 10 d → Within 3000 c →
    db.cPaymentCnt w d c - 1 = UInt64.ofNat (log.countP fun txm => txm.paysBy w d c)

section

variable {sc : Scale} {txm : TPCCTransactionMarshalled} {log : List TPCCTransactionMarshalled}

/-! ## What a record does to a row -/

theorem onRow_apply {t : TableId} (key : UInt64) (f : Row t → Row t) (s : Rows) (k : Nat) :
    (onRow t key f).apply s (t, k) = if k = key.toNat then (s (t, k)).map f else s (t, k) := by
  split
  · rename_i hk
    subst hk
    exact (onRow t key f).apply_self s
  · rename_i hk
    refine (onRow t key f).apply_of_ne s fun he => hk ?_
    exact congrArg Prod.snd he

theorem onRow_apply_of_ne {t u : TableId} (h : u ≠ t) (key : UInt64) (f : Row t → Row t) (s : Rows)
    (k : Nat) : (onRow t key f).apply s (u, k) = s (u, k) :=
  (onRow t key f).apply_of_ne s fun he => h (congrArg Prod.fst he)

theorem recordUpdates_payment (h : txm.txnType = 1) :
    recordUpdates txm = [onRow .warehouse txm.warehouseKey (payWarehouse txm),
      onRow .district txm.districtKey (payDistrict txm),
      onRow .customer txm.customerKey (payCustomer txm)] := by
  unfold recordUpdates spawn
  simp only [h, Bool.false_eq_true, if_false]
  rfl

theorem recordUpdates_newOrder (h : txm.txnType = 0)
    (hc : 1 ≤ txm.numberOfItems ∧ txm.numberOfItems ≤ 15) :
    recordUpdates txm = onRow .warehouse txm.warehouseKey (payWarehouse txm) ::
      onRow .district txm.districtKey takeOrderId ::
        txm.lines.map fun k => onRow .stock (txm.stockKey k) (updateStock txm k) := by
  unfold recordUpdates spawn
  simp only [h, hc, Bool.false_eq_true, if_true, if_false, and_self]
  simp [Behaviour.updates, Behaviour.warehouseUpdates, Behaviour.bodyUpdates,
    Behaviour.withWarehouse, Behaviour.txm]

theorem stockUpdates_apply (txm : TPCCTransactionMarshalled) (s : Rows) {t : TableId}
    (h : t ≠ .stock) (k : Nat) :
    applyAll (txm.lines.map fun k => onRow .stock (txm.stockKey k) (updateStock txm k)) s (t, k) =
      s (t, k) := by
  refine applyAll_of_notMem (fun u hu he => ?_) s
  obtain ⟨j, -, rfl⟩ := List.mem_map.mp hu
  exact h (congrArg Prod.fst he)

theorem record_warehouse (hv : txm.Valid sc) (s : Rows) (k : Nat) :
    applyAll (recordUpdates txm) s (.warehouse, k) =
      if k = txm.warehouseKey.toNat then (s (.warehouse, k)).map (payWarehouse txm)
      else s (.warehouse, k) := by
  rcases hv.type with h | h
  · rw [recordUpdates_newOrder h (hv.count h), applyAll_cons, applyAll_cons,
      stockUpdates_apply txm _ (by decide), onRow_apply_of_ne (by decide), onRow_apply]
  · rw [recordUpdates_payment h, applyAll_cons, applyAll_cons, applyAll_cons, applyAll_nil,
      onRow_apply_of_ne (by decide), onRow_apply_of_ne (by decide), onRow_apply]

theorem record_district (hv : txm.Valid sc) (s : Rows) (k : Nat) :
    applyAll (recordUpdates txm) s (.district, k) =
      if k = txm.districtKey.toNat then
        (s (.district, k)).map (if txm.txnType = 0 then takeOrderId else payDistrict txm)
      else s (.district, k) := by
  rcases hv.type with h | h
  · rw [recordUpdates_newOrder h (hv.count h), applyAll_cons, applyAll_cons,
      stockUpdates_apply txm _ (by decide), onRow_apply, onRow_apply_of_ne (by decide), if_pos h]
  · rw [recordUpdates_payment h, applyAll_cons, applyAll_cons, applyAll_cons, applyAll_nil,
      onRow_apply_of_ne (by decide), onRow_apply, onRow_apply_of_ne (by decide),
      if_neg (by rw [h]; decide : ¬ txm.txnType = 0)]

theorem record_customer (hv : txm.Valid sc) (s : Rows) (k : Nat) :
    applyAll (recordUpdates txm) s (.customer, k) =
      if txm.txnType = 1 ∧ k = txm.customerKey.toNat then
        (s (.customer, k)).map (payCustomer txm)
      else s (.customer, k) := by
  rcases hv.type with h | h
  · rw [recordUpdates_newOrder h (hv.count h), applyAll_cons, applyAll_cons,
      stockUpdates_apply txm _ (by decide), onRow_apply_of_ne (by decide),
      onRow_apply_of_ne (by decide), if_neg fun hp => absurd (h.symm.trans hp.1) (by decide)]
  · rw [recordUpdates_payment h, applyAll_cons, applyAll_cons, applyAll_cons, applyAll_nil,
      onRow_apply, onRow_apply_of_ne (by decide), onRow_apply_of_ne (by decide)]
    simp only [h, true_and]

/-! ## What a run adds to a field -/

/-- If the operations that hit a row raise a field of it by their amounts, a run raises
it by the total. -/
theorem exec_field {op : Type} {updates : op → List RowUpdate} {ops : List op} {t : TableId}
    {k : Nat} {f : Row t → UInt64} {g : op → Row t → Row t} {amount : op → UInt64}
    {hits : op → Bool}
    (hstep : ∀ a ∈ ops, ∀ s : Rows, applyAll (updates a) s (t, k) =
      if hits a then (s (t, k)).map (g a) else s (t, k))
    (hf : ∀ a ∈ ops, ∀ r, f (g a r) = f r + amount a) {s : Rows} (hs : (s (t, k)).isSome) :
    (exec (fun a => applyAll (updates a)) ops s (t, k)).elim 0 f =
      (s (t, k)).elim 0 f + total amount hits ops := by
  refine exec_total (P := fun s : Rows => (s (t, k)).isSome)
    (m := fun s : Rows => (s (t, k)).elim 0 f) (fun a hmem s hs => ?_) hs
  obtain ⟨r, hr⟩ := Option.isSome_iff_exists.mp hs
  simp only [hstep a hmem s, hr]
  split
  · exact ⟨rfl, hf a hmem r⟩
  · exact ⟨rfl, (add_zero _).symm⟩

/-- The same in a run of the default build. -/
theorem run_field {db₀ db : Database} (hrun : runBehaviours sc (spawned false log) db₀ = .ok db)
    {t : TableId} (ht : t.Static) {key : UInt64} {f : Row t → UInt64}
    {g : TPCCTransactionMarshalled → Row t → Row t} {amount : TPCCTransactionMarshalled → UInt64}
    {hits : TPCCTransactionMarshalled → Bool}
    (hstep : ∀ txm ∈ log, ∀ s : Rows, applyAll (recordUpdates txm) s (t, key.toNat) =
      if hits txm then (s (t, key.toNat)).map (g txm) else s (t, key.toNat))
    (hf : ∀ txm ∈ log, ∀ r, f (g txm r) = f r + amount txm)
    (hs : ((db₀.table t).map key.toNat).isSome) :
    db.field t key f = db₀.field t key f + total amount hits log := by
  have hshow := (shows_obs db₀).records hrun
  have hcell : (db.table t).map key.toNat = _ := hshow (t, key.toNat) ht
  unfold Database.field
  rw [hcell, exec_field hstep hf hs]
  rfl

/-! ## Which records hit a row -/

theorem warehouseKey_eq_iff (hk : txm.KeysValid sc) {w : UInt32}
    (hw : Within sc.numWarehouses.toNat w) :
    (Warehouse.staticHashKey w).toNat = txm.warehouseKey.toNat ↔ txm.wId = w := by
  rw [hk.warehouseKey_toNat, warehouseKey_toNat hw.1]
  constructor
  · intro h
    exact hk.w.eq_of_sub_eq hw h.symm
  · rintro rfl
    rfl

theorem districtKey_eq_iff (hk : txm.KeysValid sc) {w d : UInt32}
    (hw : Within sc.numWarehouses.toNat w) (hd : Within 10 d) :
    (District.staticHashKey w d).toNat = txm.districtKey.toNat ↔ txm.wId = w ∧ txm.dId = d := by
  have hkey := districtKey_toNat (⟨w, d, hw, hd⟩ : DistrictId sc)
  rw [hk.districtKey_toNat, hkey]
  constructor
  · intro h
    have he := DistrictId.eq_of_index_eq h
    exact ⟨(congrArg DistrictId.wId he).symm, (congrArg DistrictId.dId he).symm⟩
  · rintro ⟨rfl, rfl⟩
    rfl

theorem customerKey_eq_iff (hk : txm.KeysValid sc) {w d c : UInt32}
    (hw : Within sc.numWarehouses.toNat w) (hd : Within 10 d) (hc : Within 3000 c) :
    (Customer.staticHashKey w d c).toNat = txm.customerKey.toNat ↔
      (txm.wId = w ∧ txm.dId = d) ∧ txm.cId = c := by
  have hkey := customerKey_toNat (⟨w, d, hw, hd⟩ : DistrictId sc) hc
  have hkey' : txm.customerKey.toNat = hk.district.index * 3000 + (txm.cId.toNat - 1) :=
    customerKey_toNat hk.district hk.c
  rw [hkey', hkey]
  constructor
  · intro h
    obtain ⟨hindex, hc'⟩ := hc.digit_inj hk.c (Nat.le_refl 3000) h
    have he : (⟨w, d, hw, hd⟩ : DistrictId sc) = hk.district := DistrictId.eq_of_index_eq hindex
    exact ⟨⟨(congrArg DistrictId.wId he).symm, (congrArg DistrictId.dId he).symm⟩, hc'.symm⟩
  · rintro ⟨⟨rfl, rfl⟩, rfl⟩
    rfl

/-! ## The accounts after a run -/

theorem total_one {p : TPCCTransactionMarshalled → Bool} :
    total (fun _ => (1 : UInt64)) p log = UInt64.ofNat (log.countP p) := by
  induction log with
  | nil => rfl
  | cons txm log ih =>
    rw [total_cons, List.countP_cons, ih, UInt64.ofNat_add, add_comm]
    cases p txm <;> rfl

section

variable {db₀ db : Database} (hv : ∀ txm ∈ log, txm.Valid sc) (hp : db₀.Populated sc)
  (hrun : runBehaviours sc (spawned false log) db₀ = .ok db)

include hv hp hrun

theorem wYtd_run {w : UInt32} (hw : Within sc.numWarehouses.toNat w) :
    db.wYtd w = db₀.wYtd w +
      total TPCCTransactionMarshalled.amount (fun txm => txm.wId = w) log := by
  refine run_field hrun (by decide) (g := payWarehouse) (fun txm hmem s => ?_)
    (fun txm _ r => rfl) ?_
  · rw [record_warehouse (hv txm hmem)]
    simp only [warehouseKey_eq_iff (hv txm hmem).keys hw, decide_eq_true_eq]
  · have hlt := hw.2
    have hpos := hw.1
    refine hp .warehouse (by decide) _ ?_
    rw [warehouseKey_toNat hpos]
    simp only [capacity]
    omega

theorem dYtd_run {w d : UInt32} (hw : Within sc.numWarehouses.toNat w) (hd : Within 10 d) :
    db.dYtd w d = db₀.dYtd w d +
      total TPCCTransactionMarshalled.amount (fun txm => txm.paysAt w d) log := by
  -- a NewOrder hits the row too, and adds nothing
  have hpays : total (fun txm => if txm.txnType = 0 then 0 else txm.amount)
        (fun txm => txm.wId = w ∧ txm.dId = d) log =
      total TPCCTransactionMarshalled.amount (fun txm => txm.paysAt w d) log := by
    refine total_congr fun txm hmem => ?_
    rcases (hv txm hmem).type with h | h <;>
      simp [TPCCTransactionMarshalled.paysAt, TPCCTransactionMarshalled.paysIn,
        TPCCTransactionMarshalled.isPayment, h]
  rw [← hpays]
  refine run_field hrun (by decide)
    (g := fun txm => if txm.txnType = 0 then takeOrderId else payDistrict txm)
    (fun txm hmem s => ?_) (fun txm _ r => ?_) ?_
  · rw [record_district (hv txm hmem)]
    simp only [districtKey_eq_iff (hv txm hmem).keys hw hd, decide_eq_true_eq]
  · split
    · exact (add_zero _).symm
    · rfl
  · refine hp .district (by decide) _ ?_
    rw [districtKey_toNat (⟨w, d, hw, hd⟩ : DistrictId sc)]
    exact DistrictId.index_lt _

/-- A field of the customers that a Payment raises. -/
theorem customer_run {w d c : UInt32} (hw : Within sc.numWarehouses.toNat w) (hd : Within 10 d)
    (hc : Within 3000 c) {f : Customer → UInt64} {amount : TPCCTransactionMarshalled → UInt64}
    (hf : ∀ txm r, f (payCustomer txm r) = f r + amount txm) :
    db.field .customer (Customer.staticHashKey w d c) f =
      db₀.field .customer (Customer.staticHashKey w d c) f +
        total amount (fun txm => txm.paysBy w d c) log := by
  refine run_field hrun (by decide) (g := payCustomer) (fun txm hmem s => ?_)
    (fun txm _ r => hf txm r) ?_
  · rw [record_customer (hv txm hmem)]
    simp only [customerKey_eq_iff (hv txm hmem).keys hw hd hc, TPCCTransactionMarshalled.paysBy,
      TPCCTransactionMarshalled.paysAt, TPCCTransactionMarshalled.paysIn,
      TPCCTransactionMarshalled.isPayment, Bool.and_eq_true, decide_eq_true_eq, and_assoc]
  · have hlt := (⟨w, d, hw, hd⟩ : DistrictId sc).index_lt
    have hc' := hc.2
    refine hp .customer (by decide) _ ?_
    rw [customerKey_toNat (⟨w, d, hw, hd⟩ : DistrictId sc) hc]
    simp only [capacity]
    omega

theorem cYtdPayment_run {w d c : UInt32} (hw : Within sc.numWarehouses.toNat w)
    (hd : Within 10 d) (hc : Within 3000 c) : db.cYtdPayment w d c = db₀.cYtdPayment w d c +
      total TPCCTransactionMarshalled.amount (fun txm => txm.paysBy w d c) log :=
  customer_run hv hp hrun hw hd hc fun _ _ => rfl

theorem cPaymentCnt_run {w d c : UInt32} (hw : Within sc.numWarehouses.toNat w)
    (hd : Within 10 d) (hc : Within 3000 c) : db.cPaymentCnt w d c = db₀.cPaymentCnt w d c +
      UInt64.ofNat (log.countP fun txm => txm.paysBy w d c) := by
  rw [← total_one]
  exact customer_run hv hp hrun hw hd hc fun _ _ => rfl

end

/-! ## Totals split up -/

/-- Only Payments count, as the amount of a NewOrder is zero. -/
theorem total_paysIn (hv : ∀ txm ∈ log, txm.Valid sc)
    (hzero : ∀ txm ∈ log, txm.txnType = 0 → txm.hAmount = 0) (w : UInt32) :
    total TPCCTransactionMarshalled.amount (fun txm => txm.wId = w) log =
      total TPCCTransactionMarshalled.amount (fun txm => txm.paysIn w) log := by
  refine total_congr fun txm hmem => ?_
  rcases (hv txm hmem).type with h | h
  · have hamount : txm.amount = 0 := by
      unfold TPCCTransactionMarshalled.amount
      rw [hzero txm hmem h]
      rfl
    simp [hamount]
  · simp [TPCCTransactionMarshalled.paysIn, TPCCTransactionMarshalled.isPayment, h]

theorem sum_paysAt (hv : ∀ txm ∈ log, txm.Valid sc) (w : UInt32) :
    ((idsUpTo districtsPerWarehouse).map fun d =>
      total TPCCTransactionMarshalled.amount (fun txm => txm.paysAt w d) log).sum =
        total TPCCTransactionMarshalled.amount (fun txm => txm.paysIn w) log :=
  total_eq_sum_totals (nodup_idsUpTo _) TPCCTransactionMarshalled.dId fun txm hmem _ =>
    (mem_idsUpTo (n := districtsPerWarehouse)).mpr (hv txm hmem).keys.d

theorem sum_paysBy (hv : ∀ txm ∈ log, txm.Valid sc) (w d : UInt32) :
    ((idsUpTo customersPerDistrict).map fun c =>
      total TPCCTransactionMarshalled.amount (fun txm => txm.paysBy w d c) log).sum =
        total TPCCTransactionMarshalled.amount (fun txm => txm.paysAt w d) log :=
  total_eq_sum_totals (nodup_idsUpTo _) TPCCTransactionMarshalled.cId fun txm hmem _ =>
    (mem_idsUpTo (n := customersPerDistrict)).mpr (hv txm hmem).keys.c

end

/-- **The ledgers agree** after every run of the default build that goes through, be
it as long as it may. -/
theorem ledgers_agree (sc : Scale) (draws : Draws) (log : List TPCCTransactionMarshalled)
    (hv : ∀ txm ∈ log, txm.Valid sc) (hzero : ∀ txm ∈ log, txm.txnType = 0 → txm.hAmount = 0)
    (db₀ db : Database) (hgen : generate sc draws = .ok db₀)
    (hrun : runBehaviours sc (spawned false log) db₀ = .ok db) : LedgersAgree sc log db₀ db := by
  obtain ⟨db₁, hdb₁, hg⟩ := generate_holds sc draws
  obtain rfl : db₀ = db₁ := Except.ok.inj (hgen.symm.trans hdb₁)
  have hp : db₀.Populated sc := hg.generated.populated
  have hd : ∀ w d, Within sc.numWarehouses.toNat w → Within 10 d → db.dYtd w d - db₀.dYtd w d =
      total TPCCTransactionMarshalled.amount (fun txm => txm.paysAt w d) log := by
    intro w d hw hd
    rw [dYtd_run hv hp hrun hw hd, add_sub_cancel_left]
  constructor
  · exact ⟨hp, hp.mono (foldlM_keeps (P := db₀.Extends)
      (fun _ _ _ _ hs hb => hs.trans (execute_extends hb)) (.refl db₀) hrun)⟩
  · intro w hw
    calc db.wYtd w - db₀.wYtd w
        = total TPCCTransactionMarshalled.amount (fun txm => txm.paysIn w) log := by
          rw [wYtd_run hv hp hrun hw, add_sub_cancel_left, total_paysIn hv hzero]
      _ = ((idsUpTo districtsPerWarehouse).map fun d =>
            total TPCCTransactionMarshalled.amount (fun txm => txm.paysAt w d) log).sum :=
          (sum_paysAt hv w).symm
      _ = _ := congrArg List.sum (List.map_congr_left fun d hd' =>
          (hd w d hw ((mem_idsUpTo (n := districtsPerWarehouse)).mp hd')).symm)
  · intro w d hw hd'
    calc db.dYtd w d - db₀.dYtd w d
        = total TPCCTransactionMarshalled.amount (fun txm => txm.paysAt w d) log := hd w d hw hd'
      _ = ((idsUpTo customersPerDistrict).map fun c =>
            total TPCCTransactionMarshalled.amount (fun txm => txm.paysBy w d c) log).sum :=
          (sum_paysBy hv w d).symm
      _ = _ := by
          refine congrArg List.sum (List.map_congr_left fun c hc => ?_)
          have hc' : Within 3000 c := (mem_idsUpTo (n := customersPerDistrict)).mp hc
          rw [cYtdPayment_run hv hp hrun hw hd' hc', add_sub_cancel_left]
  · exact hd
  · intro w d c hw hd' hc
    have hone : db₀.cPaymentCnt w d c = 1 := by
      have hrow := hg.row (.customer (⟨w, d, hw, hd'⟩ : DistrictId sc) c hc)
      rw [← PrimaryKey.lookupKey_toNat] at hrow
      exact congrArg (fun o => o.elim 0 Customer.cPaymentCnt) hrow
    rw [cPaymentCnt_run hv hp hrun hw hd' hc, hone, add_sub_cancel_left]

/-- A Payment of 7 by customer 1 of district `(1, 1)`. -/
def examplePayment : TPCCTransactionMarshalled where
  txnType := 1
  params := Vector.ofFn fun i => if i.val < 3 then 1 else if i.val = 52 then 7 else 0

theorem examplePayment_valid : examplePayment.Valid Scale.one where
  type := .inr rfl
  keys := by
    have h : ∀ i : Nat, ∀ hi : i < 65, i < 3 → examplePayment.params[i] = 1 := by
      intro i hi h3
      refine (Vector.getElem_ofFn hi).trans ?_
      rw [if_pos h3]
    have hw : examplePayment.wId = 1 := h 0 (by decide) (by decide)
    have hd : examplePayment.dId = 1 := h 1 (by decide) (by decide)
    have hc : examplePayment.cId = 1 := h 2 (by decide) (by decide)
    refine ⟨?_, ?_, ?_⟩
    · rw [hw]
      decide
    · rw [hd]
      decide
    · rw [hc]
      decide
  count := fun h => absurd h (by decide)
  items := fun h => absurd h (by decide)

theorem ledgers_agree_example : ∃ db₀ db, generate Scale.one exampleDraws = .ok db₀ ∧
    runBehaviours Scale.one (spawned false [exampleNewOrder 1, examplePayment]) db₀ = .ok db ∧
      LedgersAgree Scale.one [exampleNewOrder 1, examplePayment] db₀ db := by
  have hv : ∀ txm ∈ [exampleNewOrder 1, examplePayment], txm.Valid Scale.one := by
    intro txm hmem
    simp only [List.mem_cons, List.not_mem_nil, or_false] at hmem
    rcases hmem with rfl | rfl
    · exact exampleNewOrder_valid (by decide)
    · exact examplePayment_valid
  have hzero : ∀ txm ∈ [exampleNewOrder 1, examplePayment], txm.txnType = 0 → txm.hAmount = 0 := by
    intro txm hmem ht
    simp only [List.mem_cons, List.not_mem_nil, or_false] at hmem
    rcases hmem with rfl | rfl
    · exact exampleNewOrder_params 1 (by decide)
    · exact absurd ht (by decide)
  obtain ⟨db₀, hgen, hg⟩ := generate_ok Scale.one exampleDraws
  have hready := hg.ready (@spawned_valid _ false _ hv) fun D =>
    List.countP_le_length.trans (by decide)
  obtain ⟨db, hrun⟩ := hready.run
  exact ⟨db₀, db, hgen, hrun, ledgers_agree Scale.one exampleDraws _ hv hzero db₀ db hgen hrun⟩

end Doradd.Tpcc
