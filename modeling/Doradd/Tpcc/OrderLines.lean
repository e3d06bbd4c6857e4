import Doradd.Tpcc.Runs
import Doradd.Tpcc.Serial

/-!
# Order lines

`INSERT_ORDER_LINE` gives the constructor of a line the key of its order, where it
asks for the order id.  The line takes that number for its order id, and its own
key is then computed from a key.

* `lines_origin`, `run_origin`: where the rows of the table of order lines come
  from;
* `Origin.olOId_ne`: the slot of a line of the last order holds no line of it;
* `lines_kept_iff`: the lines of a run are where they belong only if the run made
  no order.
-/

namespace Doradd.Tpcc

open Lib

/-- The slot of line `k + 1` of order `o` holds that line, with item `k` of the
record. -/
def LineStored {sc : Scale} (D : DistrictId sc) (o : Nat) (txm : TPCCTransactionMarshalled)
    (k : Fin 15) (db : Database) : Prop :=
  ∃ r : OrderLine, (db.table .orderLine).map (OrderLine.staticHashKey D.wId D.dId (UInt32.ofNat o)
      (UInt32.ofNat (k.val + 1))).toNat = some r ∧
    r.olOId.toNat = o ∧ r.olNumber.toNat = k.val + 1 ∧ r.olIId = (txm.iId k).toUInt64 ∧
    r.olSupplyWId = (txm.iWId k).toUInt64 ∧ r.olQuantity = (txm.iQty k).toUInt64

/-- Every order has its lines: those that were generated, and those of the orders of
the run, whose ids go on from 3000 in every district. -/
structure LinesKept (sc : Scale) (draws : Draws) (bs : List Behaviour) (db : Database) :
    Prop where
  generated : ∀ p : PrimaryKey sc draws .orderLine,
    (db.table .orderLine).map p.lookupKey.toNat = some p.row
  own : ∀ (pre : List Behaviour) (b : Behaviour) (post : List Behaviour), bs = pre ++ b :: post →
    ∀ D : DistrictId sc, D.orders b = true → ∀ k ∈ b.txm.lines,
      LineStored D (3001 + pre.countP D.orders) b.txm k db

section

variable {sc : Scale} {draws : Draws} {db db' : Database} {b : Behaviour} {bs : List Behaviour}
variable {txm : TPCCTransactionMarshalled}

/-! ## Where the lines come from -/

/-- A row of the table of order lines was there, or is a line that was inserted at
its key. -/
theorem lines_origin {x : UInt64} {ks : List (Fin 15)}
    (h : ks.foldlM (updateStockAndInsertOrderLine sc txm x) db = .ok db') {j : Nat}
    {r : OrderLine} (hr : (db'.table .orderLine).map j = some r) :
    (db.table .orderLine).map j = some r ∨
      ∃ k i, r = orderLine txm x k i ∧ j = (orderLine txm x k i).hashKey.toNat := by
  induction ks generalizing db with
  | nil =>
    cases foldlM_nil_ok.mp h
    exact .inl hr
  | cons k ks ih =>
    obtain ⟨db₁, hk, h⟩ := foldlM_cons_ok.mp h
    rcases ih h with hr₁ | hnew
    · obtain ⟨s, i, -, -, -, -, rfl⟩ := line_ok_iff.mp hk
      rw [Database.put_table_self, Table.push_map] at hr₁
      by_cases hj : j = (orderLine txm x k i).hashKey.toNat
      · rw [hj, Table.set_map_self, Option.some.injEq] at hr₁
        exact .inr ⟨k, i, hr₁.symm, hj⟩
      · rw [Table.set_map_of_ne _ hj] at hr₁
        exact .inl hr₁
    · exact .inr hnew

/-- The part of a NewOrder that writes order lines. -/
theorem execute_lines {ww : Bool} (h : (Behaviour.newOrder ww txm).execute sc db = .ok db') :
    ∃ (d : District) (db₁ db₂ : Database), db.readRow sc .district txm.districtKey = .ok d ∧
      db₁.table .orderLine = db.table .orderLine ∧
      db'.table .orderLine = db₂.table .orderLine ∧
      txm.lines.foldlM (updateStockAndInsertOrderLine sc txm
        (newOrderRow txm d.dNextOId).hashKey) db₁ = .ok db₂ := by
  obtain ⟨db₀, h₀, h⟩ := execute_body h
  simp only [Behaviour.body, newOrderBody, bind_eq_ok] at h
  obtain ⟨d, hd, db₁, hu, db₂, hl, db₃, ho, hn⟩ := h
  obtain ⟨d', -, rfl⟩ := Database.updateRow_ok_iff.mp hu
  obtain ⟨-, -, rfl⟩ := Database.insertRow_ok_iff.mp ho
  obtain ⟨-, -, rfl⟩ := Database.insertRow_ok_iff.mp hn
  rw [readRow_congr (h₀ .district (by decide))] at hd
  refine ⟨d, _, db₂, hd, ?_, ?_, hl⟩
  · rw [Database.put_table_of_ne _ (by decide), h₀ .orderLine (by decide)]
  · rw [Database.put_table_of_ne _ (by decide), Database.put_table_of_ne _ (by decide)]

/-- What a filled slot of the table of order lines says about its row: it is the
slot of a generated line, or the row was put there by an order of the run. -/
def Origin (sc : Scale) (draws : Draws) (bs : List Behaviour) (j : Nat) (r : OrderLine) : Prop :=
  (∃ p : PrimaryKey sc draws .orderLine, p.index = j) ∨
    ∃ (E : DistrictId sc) (m : Nat), m < bs.countP E.orders ∧
      j / 15 = 2 * (E.index * 6840) + (2999 + m) ∧ r.olOId.toNat = E.index * 6840 + (3000 + m)

theorem Origin.snoc {j : Nat} {r : OrderLine} (h : Origin sc draws bs j r) (b : Behaviour) :
    Origin sc draws (bs ++ [b]) j r := by
  rcases h with hp | ⟨E, m, hm, hj, hr⟩
  · exact .inl hp
  · refine .inr ⟨E, m, ?_, hj, hr⟩
    rw [countP_snoc]
    omega

/-- **Step.** -/
theorem origin_step (hi : RunInv sc bs db)
    (horigin : ∀ j r, (db.table .orderLine).map j = some r → Origin sc draws bs j r)
    (hcap : ∀ D : DistrictId sc, bs.countP D.orders ≤ 3840) (hv : b.Valid sc)
    (h : b.execute sc db = .ok db') {j : Nat} {r : OrderLine}
    (hr : (db'.table .orderLine).map j = some r) : Origin sc draws (bs ++ [b]) j r := by
  cases hb : b.isNewOrder with
  | false =>
    rw [execute_other hb h (by decide)] at hr
    exact (horigin j r hr).snoc b
  | true =>
    cases b with
    | warehouseOp txm => exact absurd hb Bool.false_ne_true
    | payment ww txm => exact absurd hb Bool.false_ne_true
    | newOrder ww txm =>
      have hk : txm.KeysValid sc := hv.1
      obtain ⟨d, db₁, db₂, hd, h₁, h₂, hl⟩ := execute_lines h
      rw [h₂] at hr
      rcases lines_origin hl hr with hold | ⟨k, i, rfl, rfl⟩
      · rw [h₁] at hold
        exact (horigin j r hold).snoc _
      · obtain ⟨d', hd', hnext⟩ := hi.next hk.district
        have hread := (Database.readRow_ok_iff.mp hd).2
        rw [hk.districtKey_toNat, hd', Option.some.injEq] at hread
        rw [hread] at hnext
        have hlt := hk.district.index_lt_429490
        have hc := hcap hk.district
        have ho := hk.orderKey_toNat (by omega : 1 ≤ d.dNextOId.toNat) (by omega)
        have hkey := hk.orderLineKey_toNat (newOrderRow txm d.dNextOId).hashKey k i
        rw [toNat_toUInt32_sub_one (by omega) (by omega)] at hkey
        have hk15 := k.isLt
        have hself : hk.district.orders (.newOrder ww txm) = true :=
          (DistrictId.orders_iff hk).mpr hk.districtKey_toNat
        refine .inr ⟨hk.district, bs.countP hk.district.orders, ?_, by omega, ?_⟩
        · rw [countP_snoc, if_pos hself]
          exact Nat.lt_succ_self _
        · exact ho.trans (by omega)

/-- **Run.** -/
theorem run_origin (hg : Holds sc draws db) (hv : ∀ b ∈ bs, b.Valid sc)
    (hcap : ∀ D : DistrictId sc, bs.countP D.orders ≤ 3840)
    (h : runBehaviours sc bs db = .ok db') {j : Nat} {r : OrderLine}
    (hr : (db'.table .orderLine).map j = some r) : Origin sc draws bs j r := by
  induction bs using List.reverseRecOn generalizing db' j r with
  | nil =>
    cases foldlM_nil_ok.mp h
    obtain ⟨p, hp, -⟩ := hg.only hr
    exact .inl ⟨p, hp⟩
  | append_singleton bs b ih =>
    obtain ⟨db₁, h₁, hb⟩ := foldlM_snoc_ok.mp h
    have hv₀ : ∀ c ∈ bs, c.Valid sc := fun c hc => hv c (List.mem_append_left _ hc)
    have hcap₀ : ∀ D : DistrictId sc, bs.countP D.orders ≤ 3840 := by
      intro D
      have := hcap D
      rw [countP_snoc] at this
      omega
    exact origin_step (run_inv hg.generated hv₀ h₁) (fun j r hr => ih hv₀ hcap₀ h₁ hr) hcap₀
      (hv b (List.mem_append_right _ (List.mem_singleton_self b))) hb hr

/-! ## The last order -/

/-- The slots of the last order of a district hold no line with its id: generated
lines are of smaller ids, and in the first district the line that belongs there is
put into the slot before. -/
theorem Origin.olOId_ne {D : DistrictId sc} {m k : Nat} {r : OrderLine} (hk : k < 15)
    (hm : m + 1 = bs.countP D.orders) (hcap : ∀ E : DistrictId sc, bs.countP E.orders ≤ 3840)
    (h : Origin sc draws bs ((D.index * 6840 + (3000 + m)) * 15 + k) r) :
    r.olOId.toNat ≠ 3001 + m := by
  have hmD := hcap D
  rcases h with ⟨p, hp⟩ | ⟨E, m', hm', hj, hr⟩
  · cases p with
    | orderLine E o ho n hn =>
      have ho' := ho.2
      have hn' := (PrimaryKey.line_within hn).2
      simp only [PrimaryKey.index] at hp
      omega
  · intro hid
    have hmE := hcap E
    obtain rfl : E = D := DistrictId.eq_of_index_eq (by omega)
    omega

theorem LineStored.origin {D : DistrictId sc} {m : Nat} {k : Fin 15} (hm : m ≤ 3840)
    (h : LineStored D (3001 + m) txm k db) : ∃ r : OrderLine,
      (db.table .orderLine).map ((D.index * 6840 + (3000 + m)) * 15 + k.val) = some r ∧
        r.olOId.toNat = 3001 + m := by
  obtain ⟨r, hr, hid, -⟩ := h
  have hk := k.isLt
  have ho : (UInt32.ofNat (3001 + m)).toNat = 3001 + m :=
    UInt32.toNat_ofNat_of_lt' (by simp only [UInt32.size]; omega)
  have hn : (UInt32.ofNat (k.val + 1)).toNat = k.val + 1 :=
    UInt32.toNat_ofNat_of_lt' (by simp only [UInt32.size]; omega)
  rw [orderLineStaticKey_toNat D _ (by omega), toNat_sub_one (by omega), ho, hn] at hr
  refine ⟨r, ?_, hid⟩
  rw [← hr]
  congr 1
  omega

/-- A run that made orders has lost a line of its last one. -/
theorem not_linesKept (hg : Holds sc draws db) (hv : ∀ b ∈ bs, b.Valid sc)
    (hlines : ∀ b ∈ bs, b.isNewOrder = true → b.txm.lines ≠ [])
    (hcap : ∀ D : DistrictId sc, bs.countP D.orders ≤ 3840)
    (h : runBehaviours sc bs db = .ok db') (hb : b ∈ bs) (hnew : b.isNewOrder = true) :
    ¬ LinesKept sc draws bs db' := by
  intro hkept
  have hsome : (bs.reverse.find? Behaviour.isNewOrder).isSome :=
    List.find?_isSome.mpr ⟨b, List.mem_reverse.mpr hb, hnew⟩
  obtain ⟨c, hc⟩ := Option.isSome_iff_exists.mp hsome
  obtain ⟨hcnew, post, pre, hbs, hpost⟩ := List.find?_eq_some_iff_append.mp hc
  replace hbs : bs = pre.reverse ++ c :: post.reverse := by
    rw [← List.reverse_reverse bs, hbs]
    simp
  have hmem : c ∈ bs := by
    rw [hbs]
    exact List.mem_append_right _ List.mem_cons_self
  cases c with
  | warehouseOp txm => exact absurd hcnew Bool.false_ne_true
  | payment ww txm => exact absurd hcnew Bool.false_ne_true
  | newOrder ww txm =>
    have hk : txm.KeysValid sc := (hv _ hmem).1
    have hself : hk.district.orders (.newOrder ww txm) = true :=
      (DistrictId.orders_iff hk).mpr hk.districtKey_toNat
    have hrest : post.reverse.countP hk.district.orders = 0 := by
      rw [List.countP_eq_zero]
      intro a ha ho
      have := hpost a (List.mem_reverse.mp ha)
      rw [DistrictId.orders_isNewOrder ho] at this
      exact absurd this (by decide)
    have hcount : pre.reverse.countP hk.district.orders + 1 = bs.countP hk.district.orders := by
      rw [hbs, List.countP_append, List.countP_cons_of_pos hself, hrest]
    obtain ⟨k, hkmem⟩ := List.exists_mem_of_ne_nil _ (hlines _ hmem rfl)
    have hle := hcap hk.district
    obtain ⟨r, hr, hid⟩ := (hkept.own _ _ _ hbs hk.district hself k hkmem).origin (by omega)
    exact (run_origin hg hv hcap h hr).olOId_ne k.isLt hcount hcap hid

/-- Without orders the table of order lines stays as it was generated. -/
theorem linesKept_of_no_orders (hg : Holds sc draws db)
    (hno : ∀ b ∈ bs, b.isNewOrder = false) (h : runBehaviours sc bs db = .ok db') :
    LinesKept sc draws bs db' where
  generated := by
    have hsame : db'.table .orderLine = db.table .orderLine :=
      foldlM_keeps (P := fun db' => db'.table .orderLine = db.table .orderLine)
        (fun b hb s t hs ht => (execute_other (hno b hb) ht (by decide)).trans hs) rfl h
    intro p
    rw [hsame, p.lookupKey_toNat]
    exact hg.row p
  own := by
    rintro pre b post rfl D hD
    have hb := hno b (List.mem_append_right _ List.mem_cons_self)
    rw [DistrictId.orders_isNewOrder hD] at hb
    exact absurd hb.symm Bool.false_ne_true

/-- **Which runs keep the order lines.**  Within the capacity of the districts every
run goes through, and the lines of all orders are in their slots afterwards if and
only if the run made no order. -/
theorem lines_kept_iff (sc : Scale) (draws : Draws) (bs : List Behaviour)
    (hv : ∀ b ∈ bs, b.Valid sc)
    (hlines : ∀ b ∈ bs, b.isNewOrder = true → b.txm.lines ≠ [])
    (hcap : ∀ D : DistrictId sc, bs.countP D.orders ≤ maxOrderTransactions.toNat) :
    ∃ db, generate sc draws >>= runBehaviours sc bs = .ok db ∧
      (LinesKept sc draws bs db ↔ ∀ b ∈ bs, b.isNewOrder = false) := by
  obtain ⟨db₀, hgen, hg⟩ := generate_holds sc draws
  obtain ⟨db, hrun⟩ := (hg.generated.ready hv hcap).run
  rw [maxOrderTransactions_toNat] at hcap
  refine ⟨db, (bind_of_ok hgen _).trans hrun, fun hkept b hb => ?_, fun hno =>
    linesKept_of_no_orders hg hno hrun⟩
  cases hnew : b.isNewOrder with
  | false => rfl
  | true => exact absurd hkept (not_linesKept hg hv hlines hcap hrun hb hnew)

end

theorem exampleOrders_lines (d : UInt32) (n : Nat) :
    ∀ b ∈ exampleOrders d n, b.isNewOrder = true → b.txm.lines ≠ [] := by
  intro b hb _
  rw [List.eq_of_mem_replicate hb]
  show (exampleNewOrder d).lines ≠ []
  rw [exampleNewOrder_lines]
  exact List.cons_ne_nil _ _

theorem exampleOrders_cap {d : UInt32} {n : Nat} (h : n ≤ 3840) (D : DistrictId Scale.one) :
    (exampleOrders d n).countP D.orders ≤ maxOrderTransactions.toNat :=
  List.countP_le_length.trans ((Nat.le_of_eq List.length_replicate).trans h)

/-- As many orders as district `(1, 10)` has room for go through and do not keep the lines. -/
theorem lines_kept_example : ∃ db,
    generate Scale.one exampleDraws >>= runBehaviours Scale.one (exampleOrders 10 3840) = .ok db ∧
      ¬ LinesKept Scale.one exampleDraws (exampleOrders 10 3840) db := by
  obtain ⟨db, hrun, hiff⟩ := lines_kept_iff Scale.one exampleDraws (exampleOrders 10 3840)
    (exampleOrders_valid (by decide) 3840) (exampleOrders_lines 10 3840)
    (exampleOrders_cap (Nat.le_refl 3840))
  have hmem : .newOrder true (exampleNewOrder 10) ∈ exampleOrders 10 3840 :=
    List.mem_replicate.mpr ⟨by decide, rfl⟩
  exact ⟨db, hrun, fun hkept => Bool.noConfusion (hiff.mp hkept _ hmem)⟩

/-- One order of one item, made in district `(1, 1)`, is enough. -/
theorem line_lost : ∃ db,
    generate Scale.one exampleDraws >>= runBehaviours Scale.one (exampleOrders 1 1) = .ok db ∧
      ¬ LinesKept Scale.one exampleDraws (exampleOrders 1 1) db := by
  obtain ⟨db₀, hgen, hg⟩ := generate_holds Scale.one exampleDraws
  have hv := exampleOrders_valid (by decide : Within 10 1) 1
  have hcap : ∀ D : DistrictId Scale.one,
      (exampleOrders 1 1).countP D.orders ≤ maxOrderTransactions.toNat :=
    exampleOrders_cap (by decide)
  obtain ⟨db, hrun⟩ := (hg.generated.ready hv hcap).run
  exact ⟨db, (bind_of_ok hgen _).trans hrun,
    not_linesKept hg hv (exampleOrders_lines 1 1) hcap hrun List.mem_cons_self rfl⟩

end Doradd.Tpcc
