import Mathlib.Data.List.Induction
import Doradd.Tpcc.Ledgers

/-!
# Stock

`UPDATE_STOCK` takes a quantity from an unsigned field and restocks the row
afterwards.  What follows holds for one row and every sequence of order lines.

* `Line.update_range`: the quantity stays between 10 and 100;
* `stock_accounted`: what has been ordered is what is gone and what was restocked;
* `run_stock`: a run takes the lines of its orders from the rows that they name.
-/

namespace Doradd.Tpcc

open Lib

/-! ## Lines -/

/-- A line of an order. -/
structure Line where
  txm : TPCCTransactionMarshalled
  k : Fin 15

namespace Line

variable (l : Line)

def qty : UInt64 := (l.txm.iQty l.k).toUInt64

/-- The supply warehouse is not the ordering one. -/
def isRemote : Bool := l.txm.iWId l.k ≠ l.txm.wId

/-- What the line does to its row. -/
def update (s : Stock) : Stock := updateStock l.txm l.k s

/-- `s_quantity < 10`, after the subtraction. -/
def restocks (s : Stock) : Bool := s.sQuantity - l.qty < 10

end Line

/-- The restocks among lines that are taken from a row one after the other. -/
def restocks : List Line → Stock → Nat
  | [], _ => 0
  | l :: ls, s => (if l.restocks s then 1 else 0) + restocks ls (l.update s)

/-- The row after these lines, from a row of quantity `q₀` without orders. -/
structure StockAccounted (q₀ : UInt64) (lines : List Line) (r : Nat) (s : Stock) : Prop where
  range : 10 ≤ s.sQuantity ∧ s.sQuantity ≤ 100
  ytd : s.sYtd = (lines.map Line.qty).sum
  orderCnt : s.sOrderCnt = UInt64.ofNat lines.length
  balance : s.sQuantity + s.sYtd = q₀ + 91 * UInt64.ofNat r

section

variable {l : Line} {s : Stock}

theorem Line.qty_toNat (l : Line) : l.qty.toNat = (l.txm.iQty l.k).toNat := UInt32.toNat_toUInt64 _

theorem Line.update_quantity (l : Line) (s : Stock) :
    (l.update s).sQuantity =
      if l.restocks s then s.sQuantity - l.qty + 91 else s.sQuantity - l.qty := by
  show (if s.sQuantity - l.qty < 10 then s.sQuantity - l.qty + 91 else s.sQuantity - l.qty) = _
  simp only [restocks, decide_eq_true_eq]

theorem Line.sub_toNat (hq : Within 10 (l.txm.iQty l.k))
    (hs : 10 ≤ s.sQuantity ∧ s.sQuantity ≤ 100) :
    (s.sQuantity - l.qty).toNat = s.sQuantity.toNat - l.qty.toNat := by
  have hlow : 10 ≤ s.sQuantity.toNat := UInt64.le_iff_toNat_le.mp hs.1
  have hqty := hq.2
  rw [← l.qty_toNat] at hqty
  refine UInt64.toNat_sub_of_le _ _ (UInt64.le_iff_toNat_le.mpr ?_)
  omega

/-- **The quantity stays in range**: the largest line takes no more than the least
quantity, and a restock leads back over the threshold. -/
theorem Line.update_range (hq : Within 10 (l.txm.iQty l.k))
    (hs : 10 ≤ s.sQuantity ∧ s.sQuantity ≤ 100) :
    10 ≤ (l.update s).sQuantity ∧ (l.update s).sQuantity ≤ 100 := by
  have hsub := Line.sub_toNat hq hs
  obtain ⟨hqlow, hqhigh⟩ := hq
  rw [← l.qty_toNat] at hqlow hqhigh
  simp only [UInt64.le_iff_toNat_le, UInt64.reduceToNat] at hs ⊢
  rw [l.update_quantity]
  cases hr : l.restocks s with
  | true =>
    have hlt : (s.sQuantity - l.qty).toNat < 10 :=
      UInt64.lt_iff_toNat_lt.mp (of_decide_eq_true hr)
    rw [if_pos rfl, UInt64.toNat_add]
    simp only [UInt64.reduceToNat]
    omega
  | false =>
    have hge : ¬ (s.sQuantity - l.qty).toNat < 10 :=
      fun h => of_decide_eq_false hr (UInt64.lt_iff_toNat_lt.mpr h)
    rw [if_neg Bool.false_ne_true]
    omega

/-! ## Sequences of lines -/

theorem restocks_snoc (ls : List Line) (l : Line) (s : Stock) :
    restocks (ls ++ [l]) s =
      restocks ls s + if l.restocks (exec Line.update ls s) then 1 else 0 := by
  induction ls generalizing s with
  | nil =>
    simp only [List.nil_append, restocks, exec_nil]
    exact Nat.add_comm _ _
  | cons l' ls ih =>
    simp only [List.cons_append, restocks, ih, exec_cons]
    exact (Nat.add_assoc _ _ _).symm

/-- **Step.** -/
theorem StockAccounted.update {q₀ : UInt64} {ls : List Line} {r : Nat}
    (h : StockAccounted q₀ ls r s) (hq : Within 10 (l.txm.iQty l.k)) :
    StockAccounted q₀ (ls ++ [l]) (r + if l.restocks s then 1 else 0) (l.update s) := by
  have hytd : (l.update s).sYtd = s.sYtd + l.qty := rfl
  constructor
  · exact Line.update_range hq h.range
  · rw [hytd, h.ytd, List.map_append, List.sum_append, List.map_singleton, List.sum_singleton]
  · rw [List.length_append, List.length_singleton, UInt64.ofNat_add, ← h.orderCnt]
    rfl
  · have hbal := h.balance
    rw [l.update_quantity, hytd]
    cases hr : l.restocks s with
    | true =>
      simp only [if_true, UInt64.ofNat_add]
      calc s.sQuantity - l.qty + 91 + (s.sYtd + l.qty)
          = s.sQuantity + s.sYtd + 91 := by rw [add_right_comm, sub_add_add_cancel]
        _ = q₀ + 91 * (UInt64.ofNat r + UInt64.ofNat 1) := by rw [hbal, mul_add, add_assoc]; rfl
    | false =>
      simp only [Bool.false_eq_true, if_false, Nat.add_zero]
      calc s.sQuantity - l.qty + (s.sYtd + l.qty)
          = s.sQuantity + s.sYtd := sub_add_add_cancel _ _ _
        _ = q₀ + 91 * UInt64.ofNat r := hbal

/-- **Run.** -/
theorem stockAccounted_run {ls : List Line} (hq : ∀ l ∈ ls, Within 10 (l.txm.iQty l.k))
    (hs : 10 ≤ s.sQuantity ∧ s.sQuantity ≤ 100) (h₀ : s.sYtd = 0 ∧ s.sOrderCnt = 0) :
    StockAccounted s.sQuantity ls (restocks ls s) (exec Line.update ls s) := by
  induction ls using List.reverseRecOn with
  | nil =>
    refine ⟨hs, h₀.1, h₀.2, ?_⟩
    rw [exec_nil, h₀.1]
    rfl
  | append_singleton ls l ih =>
    rw [exec_snoc, restocks_snoc]
    exact (ih fun l' hl' => hq l' (List.mem_append_left _ hl')).update
      (hq l (List.mem_append_right _ (List.mem_singleton.mpr rfl)))

/-! ## Generated rows -/

theorem generated_stock {sc : Scale} {draws : Draws} {db₀ : Database}
    (hgen : generate sc draws = .ok db₀) {k : Nat} (hs : (db₀.table .stock).map k = some s) :
    (10 ≤ s.sQuantity ∧ s.sQuantity ≤ 100) ∧ s.sYtd = 0 ∧ s.sOrderCnt = 0 ∧ s.sRemoteCnt = 0 := by
  obtain ⟨db₁, hdb₁, hg⟩ := generate_holds sc draws
  obtain rfl : db₀ = db₁ := Except.ok.inj (hgen.symm.trans hdb₁)
  obtain ⟨p, -, rfl⟩ := hg.only hs
  cases p with
  | stock w hw i hi =>
    obtain ⟨hlow, hhigh⟩ := draws.quantity_range w i
    exact ⟨⟨UInt64.le_iff_toNat_le.mpr hlow, UInt64.le_iff_toNat_le.mpr hhigh⟩, rfl, rfl, rfl⟩

end

/-- **Stock is fully accounted for**, after every line of every sequence of lines on a
generated row, and no line takes more than there is. -/
theorem stock_accounted (sc : Scale) (draws : Draws) {db₀ : Database}
    (hgen : generate sc draws = .ok db₀) {k : Nat} {s₀ : Stock}
    (hs₀ : (db₀.table .stock).map k = some s₀) (lines : List Line)
    (hqty : ∀ l ∈ lines, Within 10 (l.txm.iQty l.k)) :
    (10 ≤ s₀.sQuantity ∧ s₀.sQuantity ≤ 100) ∧ ∀ ls l, ls ++ [l] <+: lines →
      l.qty ≤ (exec Line.update ls s₀).sQuantity ∧
        StockAccounted s₀.sQuantity (ls ++ [l]) (restocks (ls ++ [l]) s₀)
          (exec Line.update (ls ++ [l]) s₀) := by
  obtain ⟨hq₀, hytd, hcnt, -⟩ := generated_stock hgen hs₀
  refine ⟨hq₀, fun ls l hpre => ?_⟩
  have hall : ∀ l' ∈ ls ++ [l], Within 10 (l'.txm.iQty l'.k) :=
    fun l' hl' => hqty l' (hpre.subset hl')
  have hbefore := stockAccounted_run (fun l' hl' => hall l' (List.mem_append_left _ hl')) hq₀
    ⟨hytd, hcnt⟩
  refine ⟨?_, stockAccounted_run hall hq₀ ⟨hytd, hcnt⟩⟩
  have hlow : 10 ≤ (exec Line.update ls s₀).sQuantity.toNat :=
    UInt64.le_iff_toNat_le.mp hbefore.range.1
  have hhigh := (hall l (List.mem_append_right _ (List.mem_singleton.mpr rfl))).2
  rw [← l.qty_toNat] at hhigh
  exact UInt64.le_iff_toNat_le.mpr (hhigh.trans hlow)

/-- Two lines of one item on the first row. -/
theorem stock_accounted_two : ∃ db₀ s₀, generate Scale.one exampleDraws = .ok db₀ ∧
    (db₀.table .stock).map 0 = some s₀ ∧
      StockAccounted s₀.sQuantity [⟨exampleNewOrder 1, 0⟩, ⟨exampleNewOrder 1, 0⟩]
        (restocks [⟨exampleNewOrder 1, 0⟩, ⟨exampleNewOrder 1, 0⟩] s₀)
        (exec Line.update [⟨exampleNewOrder 1, 0⟩, ⟨exampleNewOrder 1, 0⟩] s₀) := by
  obtain ⟨db₀, hgen, hg⟩ := generate_holds Scale.one exampleDraws
  have hrow := hg.row (.stock 1 (by decide) 1 (by decide))
  refine ⟨db₀, _, hgen, hrow, ?_⟩
  have hqty : ∀ l ∈ [(⟨exampleNewOrder 1, 0⟩ : Line), ⟨exampleNewOrder 1, 0⟩],
      Within 10 (l.txm.iQty l.k) := by
    intro l hl
    simp only [List.mem_cons, List.not_mem_nil, or_false, or_self] at hl
    have hone : (exampleNewOrder 1).iQty 0 = 1 := exampleNewOrder_params 1 (by decide)
    rw [hl, hone]
    decide
  exact ((stock_accounted Scale.one exampleDraws hgen hrow _ hqty).2 [⟨exampleNewOrder 1, 0⟩] _
    (List.prefix_refl _)).2

/-! ## Runs -/

/-- The record spawns an order. -/
def TPCCTransactionMarshalled.IsOrder (txm : TPCCTransactionMarshalled) : Prop :=
  txm.txnType = 0 ∧ 1 ≤ txm.numberOfItems ∧ txm.numberOfItems ≤ 15

instance (txm : TPCCTransactionMarshalled) : Decidable txm.IsOrder :=
  inferInstanceAs (Decidable (_ ∧ _ ∧ _))

/-- The lines of a log on the stock row in slot `k`, in the order they are executed in. -/
def linesOn (k : Nat) (log : List TPCCTransactionMarshalled) : List Line :=
  log.flatMap fun txm =>
    if txm.IsOrder then
      (txm.lines.filter fun j => (txm.stockKey j).toNat = k).map (Line.mk txm)
    else []

section

variable {sc : Scale} {txm : TPCCTransactionMarshalled} {log : List TPCCTransactionMarshalled}

theorem linesOn_cons (k : Nat) (txm : TPCCTransactionMarshalled)
    (log : List TPCCTransactionMarshalled) : linesOn k (txm :: log) =
      linesOn k [txm] ++ linesOn k log := by
  unfold linesOn
  rw [List.flatMap_cons, List.flatMap_singleton]

theorem applyAll_lines (txm : TPCCTransactionMarshalled) (ks : List (Fin 15)) (s : Rows) (k : Nat) :
    applyAll (ks.map fun j => onRow .stock (txm.stockKey j) (updateStock txm j)) s (.stock, k) =
      (s (.stock, k)).map (exec Line.update
        ((ks.filter fun j => (txm.stockKey j).toNat = k).map (Line.mk txm))) := by
  induction ks generalizing s with
  | nil => exact Option.map_id'.symm
  | cons j ks ih =>
    rw [List.map_cons, applyAll_cons, ih, onRow_apply]
    by_cases hj : (txm.stockKey j).toNat = k
    · rw [if_pos hj.symm, List.filter_cons_of_pos (by simpa using hj), Option.map_map]
      rfl
    · rw [if_neg (Ne.symm hj), List.filter_cons_of_neg (by simpa using hj)]

/-- **What a record does to a stock row.** -/
theorem record_stock (txm : TPCCTransactionMarshalled) (s : Rows) (k : Nat) :
    applyAll (recordUpdates txm) s (.stock, k) =
      (s (.stock, k)).map (exec Line.update (linesOn k [txm])) := by
  unfold linesOn
  rw [List.flatMap_singleton]
  by_cases ho : txm.IsOrder
  · rw [if_pos ho, recordUpdates_newOrder ho.1 ho.2, applyAll_cons, applyAll_cons, applyAll_lines,
      onRow_apply_of_ne (by decide), onRow_apply_of_ne (by decide)]
  · have hid : (s (.stock, k)).map (exec Line.update []) = s (.stock, k) := Option.map_id'
    rw [if_neg ho, hid]
    by_cases hp : txm.txnType = 1
    · rw [recordUpdates_payment hp, applyAll_cons, applyAll_cons, applyAll_cons, applyAll_nil,
        onRow_apply_of_ne (by decide), onRow_apply_of_ne (by decide),
        onRow_apply_of_ne (by decide)]
    · have hnone : recordUpdates txm = [] := by
        unfold recordUpdates spawn
        simp only [Bool.false_eq_true, if_false, if_neg hp]
        split
        · rename_i h₀
          rw [if_neg fun hc => ho ⟨h₀, hc⟩]
          rfl
        · rfl
      rw [hnone, applyAll_nil]

theorem exec_stock (log : List TPCCTransactionMarshalled) (s : Rows) (k : Nat) :
    exec (fun txm => applyAll (recordUpdates txm)) log s (.stock, k) =
      (s (.stock, k)).map (exec Line.update (linesOn k log)) := by
  induction log generalizing s with
  | nil => exact Option.map_id'.symm
  | cons txm log ih =>
    have hlines := linesOn_cons k txm log
    rw [exec_cons, ih, record_stock, Option.map_map, hlines]
    congr 1
    funext r
    exact (exec_append Line.update _ _ r).symm

/-- **Run.**  A stock row after a run of any log, in either build. -/
theorem run_stock {split : Bool} {db₀ db : Database}
    (hrun : runBehaviours sc (spawned split log) db₀ = .ok db) (k : Nat) :
    (db.table .stock).map k =
      ((db₀.table .stock).map k).map (exec Line.update (linesOn k log)) := by
  have hstatic : TableId.Static .stock := by decide
  have hcell : (db.table .stock).map k = _ := (shows_obs db₀).records hrun (.stock, k) hstatic
  rw [hcell, exec_stock]
  rfl

end

end Doradd.Tpcc
