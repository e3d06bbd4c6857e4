import Mathlib.Algebra.Ring.Nat
import Mathlib.Data.List.Nodup
import Doradd.Lib.Draws

/-!
# What the log generator draws

The Python generator draws the parameters of a transaction, among them the items of
an order, which it draws again until they are new.  Its integers are unbounded.

* `ensures_nuRand`, `ensures_numberExcluding`: the ranges of the two derived draws;
* `ensures_newOrder`: the items of an order are distinct;
* `ensures_payment`: a Payment names a customer's warehouse that exists.
-/

namespace Doradd.Tpcc.GenLog

open Lib

/-! ## tpcc/gen-log/constants.py -/

def numItems : Nat := 100000
def districtsPerWarehouse : Nat := 10
def customersPerDistrict : Nat := 3000
def initialNewOrdersPerDistrict : Nat := 900
def minOlCnt : Nat := 5
def maxOlCnt : Nat := 15
def maxOlQuantity : Nat := 10
def minPayment : Nat := 1
def maxPayment : Nat := 5000

/-! ## tpcc/gen-log/scaleparameters.py -/

/-- The assertions of the constructor are fields; warehouses count from one. -/
structure ScaleParameters where
  items : Nat
  warehouses : Nat
  districtsPerWarehouse : Nat
  customersPerDistrict : Nat
  newOrdersPerDistrict : Nat
  items_range : 1 ≤ items ∧ items ≤ numItems
  warehouses_pos : 0 < warehouses
  districts_range : 1 ≤ districtsPerWarehouse ∧ districtsPerWarehouse ≤ GenLog.districtsPerWarehouse
  customers_range : 1 ≤ customersPerDistrict ∧ customersPerDistrict ≤ GenLog.customersPerDistrict
  newOrders_range : newOrdersPerDistrict ≤ GenLog.customersPerDistrict ∧
    newOrdersPerDistrict ≤ initialNewOrdersPerDistrict

namespace ScaleParameters

def startingWarehouse (_ : ScaleParameters) : Nat := 1

def endingWarehouse (sp : ScaleParameters) : Nat := sp.warehouses + sp.startingWarehouse - 1

/-- `__init__` -/
def init (items warehouses districts customers newOrders : Nat) : Option ScaleParameters :=
  if h : (1 ≤ items ∧ items ≤ numItems) ∧ 0 < warehouses ∧
      (1 ≤ districts ∧ districts ≤ GenLog.districtsPerWarehouse) ∧
      (1 ≤ customers ∧ customers ≤ GenLog.customersPerDistrict) ∧
      newOrders ≤ GenLog.customersPerDistrict ∧ newOrders ≤ initialNewOrdersPerDistrict then
    some ⟨items, warehouses, districts, customers, newOrders, h.1, h.2.1, h.2.2.1, h.2.2.2.1,
      h.2.2.2.2⟩
  else none

end ScaleParameters

/-- `makeWithScaleFactor`; `scaled n` is `int(n / scaleFactor)`, a quotient of floats
that nothing is assumed of. -/
def makeWithScaleFactor (warehouses : Nat) (scaled : Nat → Nat) : Option ScaleParameters :=
  let items := if scaled numItems ≤ 0 then 1 else scaled numItems
  let districts := max districtsPerWarehouse 1
  let customers := max (scaled customersPerDistrict) 1
  let newOrders := max (scaled initialNewOrdersPerDistrict) 0
  ScaleParameters.init items warehouses districts customers newOrders

theorem ScaleParameters.init_warehouses {items warehouses districts customers newOrders : Nat}
    {sp : ScaleParameters} (h : init items warehouses districts customers newOrders = some sp) :
    sp.warehouses = warehouses := by
  unfold init at h
  split at h
  · cases h
    rfl
  · cases h

theorem makeWithScaleFactor_warehouses {warehouses : Nat} {scaled : Nat → Nat}
    {sp : ScaleParameters} (h : makeWithScaleFactor warehouses scaled = some sp) :
    sp.warehouses = warehouses := ScaleParameters.init_warehouses h

/-! ## tpcc/gen-log/nurand.py and rand.py -/

/-- The constants of `NURandC`, in the ranges that `makeForLoad` draws them from. -/
structure NURandC where
  cLast : Nat
  cId : Nat
  orderLineItemId : Nat
  cLast_range : cLast ≤ 255
  cId_range : cId ≤ 1023
  orderLineItemId_range : orderLineItemId ≤ 8191

def number (minimum maximum : Nat) : Draw Nat := do
  let value ← randint minimum maximum
  check (minimum ≤ value ∧ value ≤ maximum)
  return value

/-- The constant that goes with a value of `a`; other values raise. -/
def NURandC.constant (nu : NURandC) (a : Nat) : Draw Nat :=
  if a = 255 then pure nu.cLast
  else if a = 1023 then pure nu.cId
  else if a = 8191 then pure nu.orderLineItemId
  else failure

/-- `NURand` -/
def nuRand (nu : NURandC) (a x y : Nat) : Draw Nat := do
  check (x ≤ y)
  let c ← nu.constant a
  let r ← number 0 a
  let s ← number x y
  return ((r ||| s) + c) % (y - x + 1) + x

def numberExcluding (minimum maximum excluding : Nat) : Draw Nat := do
  check (minimum < maximum)
  check (minimum ≤ excluding ∧ excluding ≤ maximum)
  let num ← number minimum (maximum - 1)
  let num := if num ≥ excluding then num + 1 else num
  check (minimum ≤ num ∧ num ≤ maximum ∧ num ≠ excluding)
  return num

/-- `int(fixedPoint(..))` of whole bounds: the float is a multiple of
`1 / multiplier`, rounded to the nearest float, which does not reach the next whole
number. -/
def intFixedPoint (decimalPlaces minimum maximum : Nat) : Draw Nat := do
  check (0 < decimalPlaces)
  check (minimum < maximum)
  let multiplier := 10 ^ decimalPlaces
  let n ← number (minimum * multiplier) (maximum * multiplier)
  return n / multiplier

/-- `makeRandomLastName`, up to the number that the name spells. -/
def makeRandomLastName (nu : NURandC) (maxCID : Nat) : Draw Nat := do
  let minCid := if maxCID - 1 < 999 then maxCID - 1 else 999
  let number ← nuRand nu 255 0 minCid
  check (number ≤ 999)
  return number

/-! ## tpcc/gen-log/generate_tpcc.py -/

/-- The parameters of a transaction, but for `c_last`, which is not marshalled. -/
structure Params where
  wId : Nat
  dId : Nat
  cId : Nat
  olCnt : Nat
  oEntryD : Nat
  iIds : List Nat
  iWIds : List Nat
  iQtys : List Nat
  hAmount : Nat
  cWId : Nat
  cDId : Nat
  hDate : Nat

section

variable (sp : ScaleParameters) (nu : NURandC)

def makeWarehouseId : Draw Nat := do
  let wId ← number sp.startingWarehouse sp.endingWarehouse
  check (wId ≥ sp.startingWarehouse)
  check (wId ≤ sp.endingWarehouse)
  return wId

def makeDistrictId : Draw Nat := number 1 sp.districtsPerWarehouse

def makeCustomerId : Draw Nat := nuRand nu 1023 1 sp.customersPerDistrict

def makeItemId : Draw Nat := nuRand nu 8191 1 sp.items

/-- The three lists that the loop over the items fills. -/
structure Items where
  iIds : List Nat
  iWIds : List Nat
  iQtys : List Nat

/-- One in a hundred items is from a remote warehouse. -/
def makeSupplyWarehouseId (wId remote : Nat) : Draw Nat :=
  if sp.warehouses > 1 ∧ remote = 1 then
    numberExcluding sp.startingWarehouse sp.endingWarehouse wId
  else pure wId

/-- A round of the loop; no transaction rolls back. -/
def addItem (wId : Nat) (l : Items) : Draw Items := do
  let iId ← retry (makeItemId sp nu) fun i => i ∉ l.iIds
  let remote ← number 1 100
  let iWId ← makeSupplyWarehouseId sp wId remote
  let iQty ← number 1 maxOlQuantity
  return ⟨l.iIds ++ [iId], l.iWIds ++ [iWId], l.iQtys ++ [iQty]⟩

/-- `generateNewOrderParams`, at a time in seconds. -/
def generateNewOrderParams (now : Nat) : Draw Params := do
  let wId ← makeWarehouseId sp
  let dId ← makeDistrictId sp
  let cId ← makeCustomerId sp nu
  let olCnt ← number minOlCnt maxOlCnt
  let l ← repeatM olCnt (addItem sp nu wId) ⟨[], [], []⟩
  return ⟨wId, dId, cId, olCnt, now, l.iIds, l.iWIds, l.iQtys, 0, 0, 0, 0⟩

/-- The warehouse and the district of the customer, who pays through the own
warehouse in 85 of 100 Payments. -/
def makeCustomerHome (wId dId x : Nat) : Draw (Nat × Nat) :=
  if sp.warehouses = 1 ∨ x ≤ 85 then pure (wId, dId)
  else do
    let cWId ← numberExcluding sp.startingWarehouse sp.endingWarehouse wId
    check (cWId ≠ wId)
    let cDId ← makeDistrictId sp
    return (cWId, cDId)

/-- `generatePaymentParams`, at a time in seconds. -/
def generatePaymentParams (now : Nat) : Draw Params := do
  let x ← number 1 100
  let _y ← number 1 100
  let wId ← makeWarehouseId sp
  let dId ← makeDistrictId sp
  let hAmount ← intFixedPoint 2 minPayment maxPayment
  let home ← makeCustomerHome sp wId dId x
  let cId ← makeCustomerId sp nu
  let _cLast ← makeRandomLastName nu sp.customersPerDistrict
  return ⟨wId, dId, cId, 0, 0, [], [], [], hAmount, home.1, home.2, now⟩

end

/-! ## Ranges -/

section

variable {sp : ScaleParameters} {nu : NURandC}

/-- From one to `n`. -/
def UpTo (n v : Nat) : Prop := 1 ≤ v ∧ v ≤ n

instance (n v : Nat) : Decidable (UpTo n v) := inferInstanceAs (Decidable (_ ∧ _))

theorem ensures_number (lo hi : Nat) : Ensures (number lo hi) fun v => lo ≤ v ∧ v ≤ hi :=
  (ensures_randint lo hi).bind fun _ hv => .then fun _ => .pure hv

/-- The modulus keeps the result in the range, whatever the constant is. -/
theorem ensures_nuRand (a x y : Nat) : Ensures (nuRand nu a x y) fun v => x ≤ v ∧ v ≤ y := by
  refine (ensures_check (x ≤ y)).bind fun _ hxy => .then fun c => .then fun r => .then fun s => ?_
  have hmod : ((r ||| s) + c) % (y - x + 1) < y - x + 1 := Nat.mod_lt _ (Nat.succ_pos _)
  exact .pure ⟨by omega, by omega⟩

theorem ensures_numberExcluding (lo hi ex : Nat) :
    Ensures (numberExcluding lo hi ex) fun v => lo ≤ v ∧ v ≤ hi := by
  refine .then fun _ => .then fun _ => .then fun num => ?_
  exact (ensures_check _).bind fun _ hnum => .pure ⟨hnum.1, hnum.2.1⟩

theorem ensures_makeWarehouseId : Ensures (makeWarehouseId sp) (UpTo sp.warehouses) :=
  (ensures_number _ _).bind fun _ hw => .then fun _ => .then fun _ => .pure hw

theorem ensures_makeItemId : Ensures (makeItemId sp nu) (UpTo sp.items) := ensures_nuRand _ _ _

/-! ## Items -/

/-- After `k` rounds there are `k` distinct items. -/
structure Items.Inv (sp : ScaleParameters) (k : Nat) (l : Items) : Prop where
  ids : l.iIds.length = k
  wIds : l.iWIds.length = k
  qtys : l.iQtys.length = k
  distinct : l.iIds.Nodup
  ids_range : ∀ i ∈ l.iIds, UpTo sp.items i
  wIds_range : ∀ w ∈ l.iWIds, UpTo sp.warehouses w
  qtys_range : ∀ q ∈ l.iQtys, UpTo maxOlQuantity q

theorem forall_mem_snoc {P : Nat → Prop} {l : List Nat} {a : Nat} (h : ∀ b ∈ l, P b) (ha : P a) :
    ∀ b ∈ l ++ [a], P b := by
  intro b hb
  rcases List.mem_append.mp hb with hb | hb
  · exact h b hb
  · rw [List.mem_singleton.mp hb]
    exact ha

/-- **Step.** -/
theorem ensures_addItem {wId : Nat} (hw : UpTo sp.warehouses wId) {k : Nat} {l : Items}
    (h : l.Inv sp k) : Ensures (addItem sp nu wId l) (Items.Inv sp (k + 1)) := by
  refine (ensures_makeItemId.retry _).bind fun i hi => .then fun remote => ?_
  have hnew : i ∉ l.iIds := of_decide_eq_true hi.2
  have hsupply : Ensures (makeSupplyWarehouseId sp wId remote) (UpTo sp.warehouses) :=
    .ite (fun _ => ensures_numberExcluding _ _ _) fun _ => .pure hw
  refine hsupply.bind fun w hw => (ensures_number 1 maxOlQuantity).bind fun q hq => .pure ?_
  constructor
  · rw [List.length_append, h.ids, List.length_singleton]
  · rw [List.length_append, h.wIds, List.length_singleton]
  · rw [List.length_append, h.qtys, List.length_singleton]
  · exact List.nodup_append.mpr ⟨h.distinct, List.nodup_singleton i, fun a ha b hb he =>
      hnew (List.mem_singleton.mp hb ▸ he ▸ ha)⟩
  · exact forall_mem_snoc h.ids_range hi.1
  · exact forall_mem_snoc h.wIds_range hw
  · exact forall_mem_snoc h.qtys_range hq

/-! ## Transactions -/

/-- The ids of the rows that every transaction acquires. -/
structure Params.Keys (sp : ScaleParameters) (p : Params) : Prop where
  w : UpTo sp.warehouses p.wId
  d : UpTo sp.districtsPerWarehouse p.dId
  c : UpTo sp.customersPerDistrict p.cId

/-- What `generateNewOrderParams` returns. -/
structure Params.NewOrder (sp : ScaleParameters) (now : Nat) (p : Params) : Prop where
  keys : p.Keys sp
  count : minOlCnt ≤ p.olCnt ∧ p.olCnt ≤ maxOlCnt
  items : Items.Inv sp p.olCnt ⟨p.iIds, p.iWIds, p.iQtys⟩
  time : p.oEntryD = now
  ignored : p.hAmount = 0 ∧ p.cWId = 0 ∧ p.cDId = 0 ∧ p.hDate = 0

/-- What `generatePaymentParams` returns. -/
structure Params.Payment (sp : ScaleParameters) (now : Nat) (p : Params) : Prop where
  keys : p.Keys sp
  amount : p.hAmount ≤ maxPayment
  cW : UpTo sp.warehouses p.cWId
  cD : UpTo sp.districtsPerWarehouse p.cDId
  time : p.hDate = now
  ignored : p.olCnt = 0 ∧ p.oEntryD = 0 ∧ p.iIds = [] ∧ p.iWIds = [] ∧ p.iQtys = []

/-- **A NewOrder has distinct items.** -/
theorem ensures_newOrder (sp : ScaleParameters) (nu : NURandC) (now : Nat) :
    Ensures (generateNewOrderParams sp nu now) (Params.NewOrder sp now) := by
  refine ensures_makeWarehouseId.bind fun w hw => (ensures_number _ _).bind fun d hd => ?_
  refine (ensures_nuRand _ _ _).bind fun c hc => (ensures_number _ _).bind fun n hn => ?_
  have hnil : Items.Inv sp 0 ⟨[], [], []⟩ :=
    ⟨rfl, rfl, rfl, List.nodup_nil, fun _ h => absurd h List.not_mem_nil,
      fun _ h => absurd h List.not_mem_nil, fun _ h => absurd h List.not_mem_nil⟩
  refine (Ensures.repeatM hnil (fun k l hl => ensures_addItem hw hl) n).bind fun l hl => ?_
  exact .pure ⟨⟨hw, hd, hc⟩, hn, hl, rfl, rfl, rfl, rfl, rfl⟩

theorem ensures_payment (sp : ScaleParameters) (nu : NURandC) (now : Nat) :
    Ensures (generatePaymentParams sp nu now) (Params.Payment sp now) := by
  refine .then fun x => .then fun _ => ensures_makeWarehouseId.bind fun w hw => ?_
  refine (ensures_number _ _).bind fun d hd => ?_
  have hamount : Ensures (intFixedPoint 2 minPayment maxPayment) fun n => n ≤ maxPayment :=
    .then fun _ => .then fun _ => (ensures_number _ _).bind fun n hn =>
      .pure (Nat.div_le_of_le_mul (by omega))
  refine hamount.bind fun a ha => ?_
  have hhome : Ensures (makeCustomerHome sp w d x) fun p =>
      UpTo sp.warehouses p.1 ∧ UpTo sp.districtsPerWarehouse p.2 :=
    .ite (fun _ => .pure ⟨hw, hd⟩) fun _ => (ensures_numberExcluding _ _ _).bind fun cw hcw =>
      .then fun _ => (ensures_number _ _).bind fun cd hcd => .pure ⟨hcw, hcd⟩
  refine hhome.bind fun p hp => (ensures_nuRand _ _ _).bind fun c hc => .then fun _ => ?_
  exact .pure ⟨⟨hw, hd, hc⟩, ha, hp.1, hp.2, rfl, rfl, rfl, rfl, rfl, rfl⟩

end

end Doradd.Tpcc.GenLog
