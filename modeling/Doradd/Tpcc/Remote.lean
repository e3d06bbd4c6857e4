import Doradd.Tpcc.GenRecords
import Doradd.Tpcc.Serial
import Doradd.Tpcc.Stock

/-!
# Other warehouses

With more than one warehouse the log generator lets customers pay through a district
that is not theirs, and orders items from a warehouse that is not the ordering one.
The transactions take no notice of either.

* `payment_charges_iff`: a Payment charges the customer who pays if the customer pays
  at home;
* `remote_counted_iff`: the remote lines are counted if there are none.
-/

namespace Doradd.Tpcc

open Lib

/-! ## Payments through another warehouse -/

/-- An amount on the account of a customer. -/
def Customer.charge (amount : UInt32) (c : Customer) : Customer :=
  { c with
    cBalance := c.cBalance - amount.toFloat32
    cYtdPayment := c.cYtdPayment + amount.toUInt64
    cPaymentCnt := c.cPaymentCnt + 1 }

namespace GenLog.Params

variable (p : Params)

/-- The slots of the rows that the parameters name. -/
def warehouseSlot : Nat := (Warehouse.staticHashKey (UInt32.ofNat p.wId)).toNat

def districtSlot : Nat :=
  (District.staticHashKey (UInt32.ofNat p.wId) (UInt32.ofNat p.dId)).toNat

/-- The customer is at home in another district. -/
def customerSlot : Nat :=
  (Customer.staticHashKey (UInt32.ofNat p.cWId) (UInt32.ofNat p.cDId) (UInt32.ofNat p.cId)).toNat

/-- The amount is credited to the warehouse and the district, and charged to the
customer who pays and to nobody else. -/
structure Charges (db db' : Database) : Prop where
  warehouse : (db'.table .warehouse).map p.warehouseSlot =
    ((db.table .warehouse).map p.warehouseSlot).map fun w =>
      { w with wYtd := w.wYtd + UInt64.ofNat p.hAmount }
  district : (db'.table .district).map p.districtSlot =
    ((db.table .district).map p.districtSlot).map fun d =>
      { d with dYtd := d.dYtd + UInt64.ofNat p.hAmount }
  customer : (db'.table .customer).map p.customerSlot =
    ((db.table .customer).map p.customerSlot).map (Customer.charge (UInt32.ofNat p.hAmount))
  others : ∀ k, k ≠ p.customerSlot →
    (db'.table .customer).map k = (db.table .customer).map k

end GenLog.Params

section

variable {sc : Scale} {txm : TPCCTransactionMarshalled} {split : Bool} {db db' : Database}

/-- The behaviours of a Payment go through. -/
theorem runPayment_ok (hv : txm.Valid sc) (ht : txm.txnType = 1) (hp : db.Populated sc)
    (split : Bool) : ∃ db', runBehaviours sc (spawn split txm) db = .ok db' := by
  have hbs : ∀ b ∈ spawn split txm, b.isNewOrder = false := by
    intro b hb
    have hne : txm.txnType ≠ 0 := by
      rw [ht]
      decide
    unfold spawn at hb
    rw [if_neg hne, if_pos ht] at hb
    cases split with
    | false =>
      cases List.mem_singleton.mp hb
      rfl
    | true =>
      simp only [if_true, List.mem_cons, List.not_mem_nil, or_false] at hb
      rcases hb with rfl | rfl <;> rfl
  have hrun := foldlM_succeeds (fun (db : Database) (b : Behaviour) => b.execute sc db)
    (fun db bs => db.Populated sc ∧ ∀ b ∈ bs, b.Valid sc ∧ b.isNewOrder = false)
    (fun b bs db h => ?_) ⟨hp, fun b hb => ⟨spawn_valid hv hb, hbs b hb⟩⟩
  · obtain ⟨db', h, -⟩ := hrun
    exact ⟨db', h⟩
  · obtain ⟨hvalid, hnot⟩ := h.2 b List.mem_cons_self
    obtain ⟨db', hdb'⟩ := execute_ok hvalid h.1 hnot
    exact ⟨db', hdb', h.1.mono (execute_extends hdb'),
      fun c hc => h.2 c (List.mem_cons_of_mem b hc)⟩

/-- A record on its own. -/
theorem Shows.record {s : Rows} (h : Shows db s)
    (hr : runBehaviours sc (spawn split txm) db = .ok db') :
    Shows db' (applyAll (recordUpdates txm) s) := by
  have hlog : runBehaviours sc (spawned split [txm]) db = .ok db' := by
    rw [spawned, List.flatMap_singleton]
    exact hr
  exact h.records hlog

/-- The rows after a Payment. -/
structure PaymentRows (txm : TPCCTransactionMarshalled) (db db' : Database) : Prop where
  warehouse : ∀ k, (db'.table .warehouse).map k = if k = txm.warehouseKey.toNat then
    ((db.table .warehouse).map k).map (payWarehouse txm) else (db.table .warehouse).map k
  district : ∀ k, (db'.table .district).map k = if k = txm.districtKey.toNat then
    ((db.table .district).map k).map (payDistrict txm) else (db.table .district).map k
  customer : ∀ k, (db'.table .customer).map k = if k = txm.customerKey.toNat then
    ((db.table .customer).map k).map (payCustomer txm) else (db.table .customer).map k

theorem paymentRows (hv : txm.Valid sc) (ht : txm.txnType = 1)
    (hrun : runBehaviours sc (spawn split txm) db = .ok db') : PaymentRows txm db db' := by
  have hshow := (shows_obs db).record hrun
  have hstatic : ∀ {t : TableId}, t.Static → ∀ k, (db'.table t).map k =
      applyAll (recordUpdates txm) db.obs (t, k) := fun ht k => hshow (_, k) ht
  have hne : ¬ txm.txnType = 0 := by
    rw [ht]
    decide
  constructor
  · intro k
    rw [hstatic (by decide), record_warehouse hv]
    rfl
  · intro k
    rw [hstatic (by decide), record_district hv, if_neg hne]
    rfl
  · intro k
    rw [hstatic (by decide), record_customer hv]
    simp only [ht, true_and]
    rfl

/-- A charge shows on the account that it is made to. -/
theorem payCustomer_ne (txm : TPCCTransactionMarshalled) (c : Customer) :
    payCustomer txm c ≠ c := by
  intro he
  have hcnt : c.cPaymentCnt + 1 = c.cPaymentCnt := congrArg Customer.cPaymentCnt he
  exact absurd (add_eq_left.mp hcnt) (by decide)

namespace GenLog

variable {sp : ScaleParameters} {now type : Nat} {p : Params}

theorem ofNat_eq {x : UInt32} {n : Nat} (h : x.toNat = n) : UInt32.ofNat n = x := by
  rw [← h, UInt32.ofNat_toNat]

theorem UpTo.ofNat_toNat {n v : Nat} (h : UpTo n v) (hn : n < 2 ^ 32) :
    (UInt32.ofNat v).toNat = v := UInt32.toNat_ofNat_of_lt' (h.lt hn)

/-! The record names the warehouse and the district, and a customer of that district. -/

theorem Consumed.warehouseSlot (hc : Consumed type p txm) :
    p.warehouseSlot = txm.warehouseKey.toNat := by
  rw [Params.warehouseSlot, ofNat_eq hc.wId]
  rfl

theorem Consumed.districtSlot (hc : Consumed type p txm) :
    p.districtSlot = txm.districtKey.toNat := by
  rw [Params.districtSlot, ofNat_eq hc.wId, ofNat_eq hc.dId]
  rfl

theorem Params.Payment.customerSlot_eq_iff (h : p.Payment sp now) (hc : Consumed type p txm)
    (hk : txm.KeysValid sc) (hw : sp.warehouses = sc.numWarehouses.toNat) :
    p.customerSlot = txm.customerKey.toNat ↔ p.cWId = p.wId ∧ p.cDId = p.dId := by
  have hcw := h.cW.ofNat_toNat (hw ▸ sc.numWarehouses.toNat_lt)
  have hcd := h.cD.ofNat_toNat (Nat.lt_of_le_of_lt sp.districts_range.2 (by decide))
  have hcid := ofNat_eq hc.cId
  have hwithin : Within sc.numWarehouses.toNat (UInt32.ofNat p.cWId) := by
    rw [Within, hcw, ← hw]
    exact h.cW
  have hwithin' : Within 10 (UInt32.ofNat p.cDId) := by
    rw [Within, hcd]
    exact ⟨h.cD.1, h.cD.2.trans sp.districts_range.2⟩
  rw [Params.customerSlot, customerKey_eq_iff hk hwithin hwithin' (hcid ▸ hk.c), hcid,
    ← UInt32.toNat_inj, ← UInt32.toNat_inj, hcw, hcd, hc.wId, hc.dId]
  simp only [and_true, eq_comm]

/-- **The customer of the district is charged**, whoever pays. -/
theorem Params.Payment.charges_iff (h : p.Payment sp now) (hc : Consumed 1 p txm)
    (hw : sp.warehouses = sc.numWarehouses.toNat) (hp : db.Populated sc)
    (hrun : runBehaviours sc (spawn split txm) db = .ok db') :
    p.Charges db db' ↔ p.cWId = p.wId ∧ p.cDId = p.dId := by
  have hv := h.valid hc hw.le
  have hrows := paymentRows hv (hc.type_eq (n := 1)) hrun
  have hamount : txm.hAmount.toNat = p.hAmount := hc.hAmount
  have hcredit : UInt64.ofNat p.hAmount = txm.hAmount.toUInt64 := by
    rw [← hamount]
    exact UInt64.ofNat_uInt32ToNat _
  rw [← h.customerSlot_eq_iff hc hv.keys hw]
  constructor
  · -- otherwise the customer of the district has one payment more
    intro hcharges
    by_contra hne
    have hother := hcharges.others _ (Ne.symm hne)
    obtain ⟨c, hrow⟩ := Option.isSome_iff_exists.mp
      (hp .customer (by decide) _ hv.keys.customerKey_lt)
    rw [hrows.customer, if_pos rfl, hrow, Option.map_some, Option.some.injEq] at hother
    exact payCustomer_ne txm c hother
  · intro hslot
    constructor
    · rw [hrows.warehouse, if_pos hc.warehouseSlot, hcredit]
      rfl
    · rw [hrows.district, if_pos hc.districtSlot, hcredit]
      rfl
    · rw [hrows.customer, if_pos hslot, ofNat_eq hamount]
      rfl
    · intro k hk
      rw [hrows.customer, if_neg (hslot ▸ hk)]

end GenLog

end

open GenLog in
/-- **A Payment charges the customer who pays if and only if the customer is at home in
the district that is paid.** -/
theorem payment_charges_iff (sc : Scale) (sp : ScaleParameters)
    (hw : sp.warehouses = sc.numWarehouses.toNat) (nu : NURandC) (now : Nat)
    {draws rest : List Nat} {p : Params}
    (hdrawn : generatePaymentParams sp nu now draws = some (p, rest)) {record : List UInt8}
    (hr : generateStruct 1 p = some record) (split : Bool) {db : Database}
    (hp : db.Populated sc) :
    ∃ db', runBehaviours sc (spawn split (.read record 0)) db = .ok db' ∧
      (p.Charges db db' ↔ p.cWId = p.wId ∧ p.cDId = p.dId) := by
  have h := ensures_payment sp nu now draws p rest hdrawn
  have hc := h.consumed (hw ▸ sc.numWarehouses.toNat_lt) hr
  obtain ⟨db', hrun⟩ := runPayment_ok (h.valid hc hw.le) (hc.type_eq (n := 1)) hp split
  exact ⟨db', hrun, h.charges_iff hc hw hp hrun⟩

/-- Two warehouses. -/
def Scale.two : Scale := ⟨2, by decide, by decide⟩

namespace GenLog

def twoWarehouses : ScaleParameters :=
  { exampleScale with warehouses := 2, warehouses_pos := Nat.two_pos }

/-- A customer of district `(1, 1)` pays at home. -/
def homePaid : Params := ⟨1, 1, 2, 0, 0, [], [], [], 123, 1, 1, 1700000000⟩

/-- A customer of district `(2, 1)` pays in district `(1, 1)`. -/
def remotePaid : Params := ⟨1, 1, 2, 0, 0, [], [], [], 123, 2, 1, 1700000000⟩

theorem homePaid_drawn : generatePaymentParams twoWarehouses exampleNURand 1700000000
    [50, 1, 1, 1, 12300, 0, 1, 0, 0] = some (homePaid, []) := rfl

theorem remotePaid_drawn : generatePaymentParams twoWarehouses exampleNURand 1700000000
    [90, 1, 1, 1, 12300, 1, 1, 0, 1, 0, 0] = some (remotePaid, []) := rfl

theorem homePaid_fits : homePaid.Fits 1 := ⟨.inr rfl, by decide, rfl, rfl, by decide⟩

theorem remotePaid_fits : remotePaid.Fits 1 := ⟨.inr rfl, by decide, rfl, rfl, by decide⟩

end GenLog

open GenLog

theorem payment_charges_home : ∃ db db', generate Scale.two exampleDraws = .ok db ∧
    runBehaviours Scale.two (spawn false (.read (structBytes 1 homePaid) 0)) db = .ok db' ∧
      homePaid.Charges db db' := by
  obtain ⟨db, hgen, hg⟩ := generate_ok Scale.two exampleDraws
  obtain ⟨db', hrun, hiff⟩ := payment_charges_iff Scale.two twoWarehouses rfl exampleNURand
    1700000000 homePaid_drawn homePaid_fits.generateStruct false hg.populated
  exact ⟨db, db', hgen, hrun, hiff.mpr ⟨rfl, rfl⟩⟩

/-- The customer of district `(1, 1)` with the id of the one who pays is charged. -/
theorem remote_payment_misses :
    generatePaymentParams twoWarehouses exampleNURand 1700000000
        [90, 1, 1, 1, 12300, 1, 1, 0, 1, 0, 0] = some (remotePaid, []) ∧
      ∃ record db db', generateStruct 1 remotePaid = some record ∧
        generate Scale.two exampleDraws = .ok db ∧
          runBehaviours Scale.two (spawn false (.read record 0)) db = .ok db' ∧
            ¬ remotePaid.Charges db db' := by
  obtain ⟨db, hgen, hg⟩ := generate_ok Scale.two exampleDraws
  have h := ensures_payment _ _ _ _ _ _ remotePaid_drawn
  have hc := remotePaid_fits.consumed
  have hv : TPCCTransactionMarshalled.Valid Scale.two (.read (structBytes 1 remotePaid) 0) :=
    h.valid hc (Nat.le_refl 2)
  obtain ⟨db', hrun⟩ := runPayment_ok hv (hc.type_eq (n := 1)) hg.populated false
  refine ⟨remotePaid_drawn, _, db, db', remotePaid_fits.generateStruct, hgen, hrun, ?_⟩
  intro hcharges
  have hhome := (h.charges_iff hc rfl hg.populated hrun).mp hcharges
  exact absurd hhome.1 (by decide)

/-! ## Items from another warehouse -/

/-- Every stock row counts the lines that were ordered from another warehouse. -/
def RemoteCounted (log : List TPCCTransactionMarshalled) (db : Database) : Prop :=
  ∀ (k : Nat) (s : Stock), (db.table .stock).map k = some s →
    s.sRemoteCnt.toNat = (linesOn k log).countP Line.isRemote

section

variable {sc : Scale} {log : List TPCCTransactionMarshalled} {split : Bool}

theorem lines_filled {txm : TPCCTransactionMarshalled} {x : UInt64} {db db' : Database}
    (h : txm.lines.foldlM (updateStockAndInsertOrderLine sc txm x) db = .ok db') {j : Fin 15}
    (hj : j ∈ txm.lines) : ((db'.table .stock).map (txm.stockKey j).toNat).isSome := by
  refine foldlM_reaches (P := fun db => ((db.table .stock).map (txm.stockKey j).toNat).isSome)
    hj (fun db₁ db₂ h₁ => ?_) (fun i _ db₁ db₂ h₁ hi => ?_) h
  · obtain ⟨s, i, -, -, -, -, rfl⟩ := line_ok_iff.mp h₁
    rw [Database.put_table_of_ne _ (by decide), Database.put_table_self, Table.set_map_self]
    rfl
  · have hone : ([i] : List (Fin 15)).foldlM (updateStockAndInsertOrderLine sc txm x) db₁ =
        .ok db₂ := foldlM_cons_ok.mpr ⟨_, hi, rfl⟩
    exact lines_extends hone _ _ h₁

/-- The stock rows of an executed order exist. -/
theorem run_filled {db₀ db : Database}
    (hrun : runBehaviours sc (spawned split log) db₀ = .ok db) {txm : TPCCTransactionMarshalled}
    (hmem : txm ∈ log) (ho : txm.IsOrder) {j : Fin 15} (hj : j ∈ txm.lines) :
    ((db.table .stock).map (txm.stockKey j).toNat).isSome := by
  have hspawn : Behaviour.newOrder (!split) txm ∈ spawned split log := by
    refine List.mem_flatMap.mpr ⟨txm, hmem, ?_⟩
    unfold spawn
    rw [if_pos ho.1, if_pos ho.2]
    cases split with
    | false => exact List.mem_singleton.mpr rfl
    | true => exact List.mem_cons_of_mem _ (List.mem_singleton.mpr rfl)
  refine foldlM_reaches (P := fun db => ((db.table .stock).map (txm.stockKey j).toNat).isSome)
    hspawn (fun db₁ db₂ h₁ => ?_) (fun b _ db₁ db₂ h₁ hb => execute_extends hb _ _ h₁) hrun
  obtain ⟨db₃, -, hbody⟩ := execute_body h₁
  simp only [Behaviour.body, newOrderBody, bind_eq_ok] at hbody
  obtain ⟨d, -, db₄, -, db₅, hl, db₆, hins, hmark⟩ := hbody
  exact ((Database.insertRow_extends hins).trans (Database.insertRow_extends hmark)) _ _
    (lines_filled hl hj)

theorem mem_linesOn {k : Nat} {l : Line} : l ∈ linesOn k log ↔
    l.txm ∈ log ∧ l.txm.IsOrder ∧ l.k ∈ l.txm.lines ∧ (l.txm.stockKey l.k).toNat = k := by
  unfold linesOn
  rw [List.mem_flatMap]
  constructor
  · rintro ⟨txm, hmem, hl⟩
    split at hl
    · rename_i ho
      obtain ⟨j, hj, rfl⟩ := List.mem_map.mp hl
      obtain ⟨hj, hkey⟩ := List.mem_filter.mp hj
      exact ⟨hmem, ho, hj, of_decide_eq_true hkey⟩
    · cases hl
  · rintro ⟨hmem, ho, hj, hkey⟩
    refine ⟨l.txm, hmem, ?_⟩
    rw [if_pos ho]
    exact List.mem_map.mpr ⟨l.k, List.mem_filter.mpr ⟨hj, decide_eq_true hkey⟩, rfl⟩

/-- Without a one in its row count, no order counts as remote. -/
theorem exec_remoteCnt {ls : List Line} (h : ∀ l ∈ ls, l.txm.numberOfRows ≠ 1) (s : Stock) :
    (exec Line.update ls s).sRemoteCnt = s.sRemoteCnt := by
  induction ls generalizing s with
  | nil => rfl
  | cons l ls ih =>
    rw [exec_cons, ih fun l' hl' => h l' (List.mem_cons_of_mem l hl')]
    exact if_neg (h l List.mem_cons_self)

theorem remoteCounted_iff {draws : Draws} {db₀ db : Database}
    (hgen : generate sc draws = .ok db₀)
    (hrun : runBehaviours sc (spawned split log) db₀ = .ok db)
    (ho : ∀ txm ∈ log, txm.IsOrder ∧ txm.numberOfRows ≠ 1) :
    RemoteCounted log db ↔ ∀ txm ∈ log, ∀ j ∈ txm.lines, txm.iWId j = txm.wId := by
  have hzero : ∀ k s, (db.table .stock).map k = some s → s.sRemoteCnt = 0 := by
    intro k s hs
    rw [run_stock hrun k, Option.map_eq_some_iff] at hs
    obtain ⟨s₀, hs₀, rfl⟩ := hs
    rw [exec_remoteCnt fun l hl => (ho _ (mem_linesOn.mp hl).1).2]
    exact (generated_stock hgen hs₀).2.2.2
  constructor
  · intro hcounted txm hmem j hj
    obtain ⟨s, hs⟩ := Option.isSome_iff_exists.mp (run_filled hrun hmem (ho txm hmem).1 hj)
    have hcount := hcounted _ s hs
    rw [hzero _ s hs] at hcount
    have hnone := List.countP_eq_zero.mp hcount.symm ⟨txm, j⟩
      (mem_linesOn.mpr ⟨hmem, (ho txm hmem).1, hj, rfl⟩)
    by_contra hne
    exact hnone (decide_eq_true hne)
  · intro hlocal k s hs
    have hnone : (linesOn k log).countP Line.isRemote = 0 := by
      refine List.countP_eq_zero.mpr fun l hl hremote => ?_
      obtain ⟨hmem, -, hj, -⟩ := mem_linesOn.mp hl
      exact of_decide_eq_true hremote (hlocal l.txm hmem l.k hj)
    rw [hzero k s hs, hnone]
    rfl

end

namespace GenLog

/-- A record of a NewOrder that the script can write. -/
def IsNewOrderRecord (sp : ScaleParameters) (nu : NURandC) (record : List UInt8) : Prop :=
  ∃ now draws rest p, generateNewOrderParams sp nu now draws = some (p, rest) ∧
    generateStruct 0 p = some record

/-- The word that `UPDATE_STOCK` tests is the number of items. -/
theorem IsNewOrderRecord.isOrder {sp : ScaleParameters} {nu : NURandC} {record : List UInt8}
    (h : IsNewOrderRecord sp nu record) :
    (TPCCTransactionMarshalled.read record 0).IsOrder ∧
      (TPCCTransactionMarshalled.read record 0).numberOfRows ≠ 1 := by
  obtain ⟨now, draws, rest, p, hdrawn, hr⟩ := h
  have hp := ensures_newOrder sp nu now draws p rest hdrawn
  obtain ⟨-, hwords, rfl⟩ := generateStruct_eq_some.mp hr
  have hitems : (TPCCTransactionMarshalled.read (structBytes 0 p) 0).numberOfItems.toNat =
      p.olCnt := (read_word hwords (by decide)).trans ((words_tail 0 p 0).trans hp.items.ids)
  have hrows : (TPCCTransactionMarshalled.read (structBytes 0 p) 0).numberOfRows.toNat =
      p.olCnt := (read_word hwords (by decide)).trans ((words_tail 0 p 1).trans hp.items.ids)
  obtain ⟨hlow, hhigh⟩ := hp.count
  have hlow' : 5 ≤ p.olCnt := hlow
  refine ⟨⟨read_txnType 0 p, ?_, ?_⟩, fun hone => ?_⟩
  · rw [UInt32.le_iff_toNat_le, hitems]
    exact Nat.le_trans (by decide) hlow
  · rw [UInt32.le_iff_toNat_le, hitems]
    exact hhigh
  · rw [hone] at hrows
    have hrows' : 1 = p.olCnt := hrows
    omega

end GenLog

/-- What the dispatcher reads of the records. -/
def readRecords (records : List (List UInt8)) : List TPCCTransactionMarshalled :=
  records.map fun record => .read record 0

/-- **Remote orders are counted if and only if there are none.** -/
theorem remote_counted_iff (sc : Scale) (draws : Draws) (sp : ScaleParameters) (nu : NURandC)
    (records : List (List UInt8)) (h : ∀ record ∈ records, IsNewOrderRecord sp nu record)
    (split : Bool) {db₀ db : Database} (hgen : generate sc draws = .ok db₀)
    (hrun : runBehaviours sc (spawned split (readRecords records)) db₀ = .ok db) :
    RemoteCounted (readRecords records) db ↔
      ∀ txm ∈ readRecords records, ∀ j ∈ txm.lines, txm.iWId j = txm.wId := by
  refine remoteCounted_iff hgen hrun fun txm hmem => ?_
  obtain ⟨record, hrecord, rfl⟩ := List.mem_map.mp hmem
  exact (h record hrecord).isOrder

/-- A single valid record can be executed on the generated database. -/
theorem run_one (sc : Scale) (draws : Draws) {txm : TPCCTransactionMarshalled}
    (hv : txm.Valid sc) : ∃ db₀ db, generate sc draws = .ok db₀ ∧
      runBehaviours sc (spawned false [txm]) db₀ = .ok db := by
  obtain ⟨db₀, hgen, hg⟩ := generate_ok sc draws
  have hlen : (spawned false [txm]).length ≤ 1 := by
    rw [spawned, List.flatMap_singleton, spawn]
    split
    · split
      · exact Nat.le_refl 1
      · exact Nat.zero_le 1
    · split
      · exact Nat.le_refl 1
      · exact Nat.zero_le 1
  have hbs : ∀ b ∈ spawned false [txm], b.Valid sc :=
    spawned_valid fun t ht => List.mem_singleton.mp ht ▸ hv
  obtain ⟨db, hrun⟩ := (hg.ready hbs fun D =>
    (List.countP_le_length.trans hlen).trans (by decide)).run
  exact ⟨db₀, db, hgen, hrun⟩

namespace GenLog

/-- An order of five items, the first of them from the other warehouse. -/
def remoteOrder : Params :=
  ⟨1, 1, 2, 5, 1700000000, [2, 3, 4, 5, 6], [2, 1, 1, 1, 1], [7, 7, 7, 7, 7], 0, 0, 0, 0⟩

theorem remoteOrder_drawn : generateNewOrderParams twoWarehouses exampleNURand 1700000000
    [1, 1, 0, 1, 5, 0, 1, 1, 1, 7, 0, 2, 2, 7, 0, 3, 2, 7, 0, 4, 2, 7, 0, 5, 2, 7] =
      some (remoteOrder, []) := rfl

theorem remoteOrder_fits : remoteOrder.Fits 0 := ⟨.inl rfl, by decide, rfl, rfl, by decide⟩

end GenLog

theorem remote_counted_local : ∃ db₀ db, generate Scale.one exampleDraws = .ok db₀ ∧
    runBehaviours Scale.one (spawned false (readRecords [structBytes 0 exampleOrder])) db₀ =
      .ok db ∧ RemoteCounted (readRecords [structBytes 0 exampleOrder]) db := by
  have hrecord : IsNewOrderRecord exampleScale exampleNURand (structBytes 0 exampleOrder) :=
    ⟨_, _, _, _, exampleOrder_drawn, exampleOrder_fits.generateStruct⟩
  have hall : ∀ record ∈ [structBytes 0 exampleOrder],
      IsNewOrderRecord exampleScale exampleNURand record :=
    fun record hr => List.mem_singleton.mp hr ▸ hrecord
  have hc := exampleOrder_fits.consumed
  have hv : TPCCTransactionMarshalled.Valid Scale.one (.read (structBytes 0 exampleOrder) 0) :=
    And.left ((ensures_newOrder _ _ _ _ _ _ exampleOrder_drawn).valid hc (Nat.le_refl 1))
  obtain ⟨db₀, db, hgen, hrun⟩ := run_one Scale.one exampleDraws hv
  refine ⟨db₀, db, hgen, hrun, (remote_counted_iff Scale.one exampleDraws exampleScale
    exampleNURand _ hall false hgen hrun).mpr fun txm hmem j hj => ?_⟩
  rw [List.mem_singleton.mp hmem] at hj ⊢
  have hw : ((TPCCTransactionMarshalled.read (structBytes 0 exampleOrder) 0).iWId j).toNat ∈
      exampleOrder.iWIds := hc.iWIds ▸ List.mem_map_of_mem hj
  have hone : ∀ w ∈ exampleOrder.iWIds, w = 1 := by decide
  exact UInt32.toNat_inj.mp ((hone _ hw).trans hc.wId.symm)

/-- The line from the other warehouse is not counted. -/
theorem remote_line_uncounted :
    IsNewOrderRecord twoWarehouses exampleNURand (structBytes 0 remoteOrder) ∧
      ∃ db₀ db, generate Scale.two exampleDraws = .ok db₀ ∧
        runBehaviours Scale.two (spawned false (readRecords [structBytes 0 remoteOrder])) db₀ =
          .ok db ∧ ¬ RemoteCounted (readRecords [structBytes 0 remoteOrder]) db := by
  have hrecord : IsNewOrderRecord twoWarehouses exampleNURand (structBytes 0 remoteOrder) :=
    ⟨_, _, _, _, remoteOrder_drawn, remoteOrder_fits.generateStruct⟩
  have hc := remoteOrder_fits.consumed
  have hv : TPCCTransactionMarshalled.Valid Scale.two (.read (structBytes 0 remoteOrder) 0) :=
    And.left ((ensures_newOrder _ _ _ _ _ _ remoteOrder_drawn).valid hc (Nat.le_refl 2))
  obtain ⟨db₀, db, hgen, hrun⟩ := run_one Scale.two exampleDraws hv
  refine ⟨hrecord, db₀, db, hgen, hrun, fun hcounted => ?_⟩
  have hlocal := (remoteCounted_iff hgen hrun fun txm hmem => by
    rw [List.mem_singleton.mp hmem]
    exact hrecord.isOrder).mp hcounted _ (List.mem_singleton.mpr rfl)
  -- the supply warehouses would all be the ordering one
  have hsame : ∀ w ∈ remoteOrder.iWIds, w = 1 := by
    intro w hw
    rw [← hc.iWIds] at hw
    obtain ⟨j, hj, rfl⟩ := List.mem_map.mp hw
    rw [hlocal j hj]
    exact hc.wId
  exact absurd (hsame 2 (by decide)) (by decide)

end Doradd.Tpcc
