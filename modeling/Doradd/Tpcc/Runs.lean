import Mathlib.Data.List.Induction
import Doradd.Tpcc.Generated
import Doradd.Tpcc.Progress

/-!
# Long runs

The log is replayed forever, so a run may have any length.  `insert_row` tests the
number of insertions that were made, not the key that it stores at.

* `RunInv.step`, `run_inv`: what every run does to the three tables that no cown
  protects, whether slots are overwritten or not;
* `run_outcome`: how a run ends;
* `insertions_inside_iff`: which runs store in bounds only.
-/

namespace Doradd.Tpcc

open Lib

/-- The primary key of an order: warehouse, district and order id. -/
def Order.ids (r : Order) : UInt32 × UInt32 × Nat := (r.oWId, r.oDId, r.oId.toNat)

def NewOrder.ids (r : NewOrder) : UInt32 × UInt32 × Nat := (r.noWId, r.noDId, r.noOId.toNat)

section

variable {sc : Scale} {db db' : Database} {b : Behaviour} {bs : List Behaviour}

/-! ## What every run does -/

/-- Facts of every run that goes through.  Once a district has taken more ids than
it has slots, the first slot of its neighbour holds an order of the run. -/
structure RunInv (sc : Scale) (bs : List Behaviour) (db : Database) : Prop where
  populated : db.Populated sc
  count : (db.table .newOrder).cnt = bs.countP Behaviour.isNewOrder
  notFull : bs.countP Behaviour.isNewOrder ≤ sc.numWarehouses.toNat * 1422000
  order : (db.table .order).cnt ≤ sc.numWarehouses.toNat * 30000 + bs.countP Behaviour.isNewOrder
  orderLine : (db.table .orderLine).cnt ≤
    sc.numWarehouses.toNat * 450000 + 15 * bs.countP Behaviour.isNewOrder
  next : ∀ D : DistrictId sc, ∃ d : District, (db.table .district).map D.index = some d ∧
    d.dNextOId.toNat = 3001 + bs.countP D.orders
  bounded : ∀ k r, (db.table .newOrder).map k = some r → k < sc.numWarehouses.toNat * 1422000
  spilled : ∀ D : DistrictId sc, 3841 ≤ bs.countP D.orders →
    ∃ r : Order, (db.table .order).map ((D.index + 1) * 6840) = some r ∧ 3001 ≤ r.oId.toNat

theorem countP_snoc (bs : List Behaviour) (b : Behaviour) (p : Behaviour → Bool) :
    (bs ++ [b]).countP p = bs.countP p + if p b then 1 else 0 := by
  rw [List.countP_append, List.countP_cons, List.countP_nil, Nat.zero_add]

theorem countP_orders_le (bs : List Behaviour) (D : DistrictId sc) :
    bs.countP D.orders ≤ bs.countP Behaviour.isNewOrder :=
  List.countP_mono_left fun _ _ h => DistrictId.orders_isNewOrder h

theorem Generated.runInv (hg : Generated sc db) : RunInv sc [] db where
  populated := hg.populated
  count := Nat.le_zero.mp (hg.rows .newOrder)
  notFull := Nat.zero_le _
  order := (hg.rows .order).trans (Nat.le_add_right _ _)
  orderLine := (hg.rows .orderLine).trans (Nat.le_add_right _ _)
  next := by
    intro D
    obtain ⟨d, hd⟩ := Option.isSome_iff_exists.mp
      (hg.populated .district (by decide) D.index D.index_lt)
    refine ⟨d, hd, ?_⟩
    rw [hg.next D.index d hd, List.countP_nil]
    exact UInt64.toNat_ofNat_of_lt (by decide)
  bounded := by
    intro k r hr
    rw [hg.noNewOrders k] at hr
    cases hr
  spilled := by
    intro D h
    rw [List.countP_nil] at h
    omega

/-- A NewOrder of district `D` has put the order with id `3001 + m` into the slot
after those of the first `3000 + m`, and its mark into the slot that its narrowed
id names. -/
structure Placed (sc : Scale) (D : DistrictId sc) (m : Nat) (db db' : Database) : Prop where
  room : (db.table .newOrder).cnt < sc.numWarehouses.toNat * 1422000
  order : ∃ r : Order, db'.table .order = (db.table .order).push (D.index * 6840 + (3000 + m)) r ∧
    r.ids = (D.wId, D.dId, 3001 + m)
  newOrder : ∃ (k : Nat) (r : NewOrder), db'.table .newOrder = (db.table .newOrder).push k r ∧
    k < sc.numWarehouses.toNat * 1422000 ∧ (3001 + m < 2 ^ 32 →
      k = D.index * 6840 + (3000 + m) ∧ r.ids = (D.wId, D.dId, 3001 + m))

/-- What a NewOrder does to the orders in a run. -/
theorem RunInv.placed (hi : RunInv sc bs db) {ww : Bool} {txm : TPCCTransactionMarshalled}
    (hv : (Behaviour.newOrder ww txm).Valid sc)
    (h : (Behaviour.newOrder ww txm).execute sc db = .ok db') :
    ∃ D : DistrictId sc, (∀ E : DistrictId sc, E.orders (.newOrder ww txm) = true ↔ E = D) ∧
      Placed sc D (bs.countP D.orders) db db' := by
  have hk : txm.KeysValid sc := hv.1
  have hW := sc.lt_42950
  obtain ⟨d, hdone⟩ := execute_newOrder h
  refine ⟨hk.district, fun E => ?_, ?_⟩
  · rw [DistrictId.orders_iff hk, hk.districtKey_toNat]
    exact ⟨fun he => (DistrictId.eq_of_index_eq he).symm, fun he => he ▸ rfl⟩
  obtain ⟨d', hd', hnext⟩ := hi.next hk.district
  have hread := (Database.readRow_ok_iff.mp hdone.read).2
  rw [hk.districtKey_toNat, hd', Option.some.injEq] at hread
  rw [hread] at hnext
  have hle := countP_orders_le bs hk.district
  have hfull := hi.notFull
  have hroom := hdone.room
  have hbound := UInt64.lt_iff_toNat_lt.mp hdone.inBounds
  rw [tsize_toNat] at hroom hbound
  refine ⟨hroom, ⟨newOrderRow txm d.dNextOId, ?_, ?_⟩,
    ⟨_, newOrderMark txm d.dNextOId, hdone.newOrder, hbound, fun hsmall => ⟨?_, ?_⟩⟩⟩
  · rw [hdone.order, hk.orderKey_toNat (by omega) (by omega), hnext]
    congr 1
    omega
  · exact Prod.ext rfl (Prod.ext rfl hnext)
  · rw [hk.newOrderKey_toNat, toNat_toUInt32_sub_one (by omega) (by omega), hnext]
    omega
  · have hid : d.dNextOId.toUInt32.toNat = 3001 + bs.countP hk.district.orders := by
      rw [UInt64.toNat_toUInt32, hnext]
      exact Nat.mod_eq_of_lt hsmall
    exact Prod.ext rfl (Prod.ext rfl hid)

/-- Behaviours other than NewOrders leave the three tables alone. -/
theorem execute_other (hb : b.isNewOrder = false) (h : b.execute sc db = .ok db') {t : TableId}
    (ht : ¬ t.Static) : db'.table t = db.table t := by
  have hne : t ≠ .warehouse ∧ t ≠ .district ∧ t ≠ .customer := by
    refine ⟨?_, ?_, ?_⟩ <;> rintro rfl <;> exact ht (by decide)
  cases b with
  | newOrder ww txm => exact absurd hb.symm Bool.false_ne_true
  | warehouseOp txm => exact execute_warehouseOp h t hne.1
  | payment ww txm =>
    obtain ⟨d, c, hdone⟩ := execute_payment h
    exact hdone.others t hne.1 hne.2.1 hne.2.2

theorem RunInv.step_next (hi : RunInv sc bs db) (hv : b.Valid sc) (h : b.execute sc db = .ok db')
    (D : DistrictId sc) : ∃ d : District, (db'.table .district).map D.index = some d ∧
      d.dNextOId.toNat = 3001 + (bs ++ [b]).countP D.orders := by
  obtain ⟨d, hd, hdn⟩ := hi.next D
  obtain ⟨d', hd', hn⟩ := execute_next hv h D hd
  refine ⟨d', hd', ?_⟩
  have hle := countP_orders_le bs D
  have hfull := hi.notFull
  have hW := sc.lt_42950
  rw [hn, countP_snoc]
  split
  · rw [UInt64.toNat_add, hdn]
    simp only [UInt64.reduceToNat]
    omega
  · exact hdn

/-- Other bodies insert nothing. -/
theorem RunInv.step_other (hi : RunInv sc bs db) (hv : b.Valid sc)
    (h : b.execute sc db = .ok db') (hb : b.isNewOrder = false) : RunInv sc (bs ++ [b]) db' := by
  have hsame : ∀ {t : TableId}, ¬ t.Static → db'.table t = db.table t := execute_other hb h
  have hno : ∀ D : DistrictId sc, D.orders b = false := by
    intro D
    cases ho : D.orders b with
    | false => rfl
    | true => exact (DistrictId.orders_isNewOrder ho).symm.trans hb
  have hcount : (bs ++ [b]).countP Behaviour.isNewOrder = bs.countP Behaviour.isNewOrder := by
    rw [countP_snoc, hb]
    rfl
  refine ⟨hi.populated.mono (execute_extends h), ?_, ?_, ?_, ?_, hi.step_next hv h, ?_, ?_⟩
  · rw [hsame (by decide), hcount]
    exact hi.count
  · rw [hcount]
    exact hi.notFull
  · rw [hsame (by decide), hcount]
    exact hi.order
  · rw [hsame (by decide), hcount]
    exact hi.orderLine
  · rw [hsame (by decide)]
    exact hi.bounded
  · intro D hD
    rw [countP_snoc, hno D] at hD
    rw [hsame (by decide)]
    exact hi.spilled D hD

theorem RunInv.step_newOrder {ww : Bool} {txm : TPCCTransactionMarshalled}
    (hi : RunInv sc bs db) (hv : (Behaviour.newOrder ww txm).Valid sc)
    (h : (Behaviour.newOrder ww txm).execute sc db = .ok db') :
    RunInv sc (bs ++ [.newOrder ww txm]) db' := by
  obtain ⟨D, hD, hroom, ⟨r, hr, hids⟩, ⟨k, n, hn, hk, -⟩⟩ := hi.placed hv h
  have hoid : r.oId.toNat = 3001 + bs.countP D.orders := congrArg (fun p => p.2.2) hids
  have hcount : (bs ++ [Behaviour.newOrder ww txm]).countP Behaviour.isNewOrder =
      bs.countP Behaviour.isNewOrder + 1 := countP_snoc bs (.newOrder ww txm) Behaviour.isNewOrder
  have hlen := lines_length_le txm
  have hrest := hi.count
  refine ⟨hi.populated.mono (execute_extends h), ?_, ?_, ?_, ?_, hi.step_next hv h, ?_, ?_⟩
  · rw [execute_cnt h, hcount, hi.count]
    rfl
  · omega
  · have := hi.order
    rw [execute_cnt h, hcount]
    simp only [Behaviour.inserts]
    omega
  · have := hi.orderLine
    rw [execute_cnt h, hcount]
    simp only [Behaviour.inserts]
    omega
  · intro j r' hj
    rw [hn, Table.push_map] at hj
    by_cases hjk : j = k
    · rw [hjk]
      exact hk
    · rw [Table.set_map_of_ne _ hjk] at hj
      exact hi.bounded j r' hj
  · intro E hE
    rw [hr, Table.push_map]
    by_cases hslot : (E.index + 1) * 6840 = D.index * 6840 + (3000 + bs.countP D.orders)
    · rw [hslot, Table.set_map_self]
      exact ⟨r, rfl, by omega⟩
    · rw [Table.set_map_of_ne _ hslot]
      -- the district did not run out of slots just now
      apply hi.spilled E
      rw [countP_snoc] at hE
      split at hE
      · rename_i ho
        obtain rfl := (hD E).mp ho
        omega
      · exact hE

/-- **Step.** -/
theorem RunInv.step (hi : RunInv sc bs db) (hv : b.Valid sc) (h : b.execute sc db = .ok db') :
    RunInv sc (bs ++ [b]) db' := by
  cases b with
  | warehouseOp txm => exact hi.step_other hv h rfl
  | payment ww txm => exact hi.step_other hv h rfl
  | newOrder ww txm => exact hi.step_newOrder hv h

/-- Every run from the generated database. -/
theorem run_inv (hg : Generated sc db) (hv : ∀ b ∈ bs, b.Valid sc)
    (h : runBehaviours sc bs db = .ok db') : RunInv sc bs db' := by
  induction bs using List.reverseRecOn generalizing db' with
  | nil =>
    cases foldlM_nil_ok.mp h
    exact hg.runInv
  | append_singleton bs b ih =>
    obtain ⟨db₁, h₁, hb⟩ := foldlM_snoc_ok.mp h
    have hi := ih (fun c hc => hv c (List.mem_append_left _ hc)) h₁
    exact hi.step (hv b (List.mem_append_right _ (List.mem_singleton_self b))) hb

/-! ## How a run ends -/

/-- Every NewOrder that is started before the table of new orders is full puts its
mark in bounds; the id in the mark is narrowed to 32 bits. -/
def MarksFit (sc : Scale) (bs : List Behaviour) : Prop :=
  ∀ (pre : List Behaviour) (b : Behaviour) (post : List Behaviour), bs = pre ++ b :: post →
    pre.countP Behaviour.isNewOrder < (tsize sc .newOrder).toNat →
    ∀ D : DistrictId sc, D.orders b = true →
      NewOrder.staticHashKey D.wId D.dId (UInt32.ofNat (3001 + pre.countP D.orders)) <
        tsize sc .newOrder

/-- So does the next behaviour, if it is a NewOrder. -/
def MarkFits (sc : Scale) (bs : List Behaviour) (b : Behaviour) : Prop :=
  bs.countP Behaviour.isNewOrder < (tsize sc .newOrder).toNat →
    ∀ D : DistrictId sc, D.orders b = true →
      NewOrder.staticHashKey D.wId D.dId (UInt32.ofNat (3001 + bs.countP D.orders)) <
        tsize sc .newOrder

theorem marksFit_nil : MarksFit sc [] := by
  intro pre b post h
  exact absurd h.symm (List.append_ne_nil_of_right_ne_nil _ (List.cons_ne_nil _ _))

theorem marksFit_snoc :
    MarksFit sc (bs ++ [b]) ↔ MarksFit sc bs ∧ MarkFits sc bs b := by
  constructor
  · intro h
    refine ⟨fun pre c post he => h pre c (post ++ [b]) ?_, h bs b [] rfl⟩
    rw [he, List.append_assoc, List.cons_append]
  · rintro ⟨h, hb⟩ pre c post he
    rcases List.eq_nil_or_concat post with rfl | ⟨post, c', rfl⟩
    · obtain ⟨rfl, hc⟩ := List.append_inj' he rfl
      rw [List.cons.injEq] at hc
      rw [← hc.1]
      exact hb
    · have he' : bs ++ [b] = (pre ++ c :: post) ++ [c'] := by simpa using he
      exact h pre c post (List.append_inj' he' rfl).1

/-- What the next NewOrder of a run comes to is decided by its last insertion. -/
theorem RunInv.execute_eq (hi : RunInv sc bs db) {ww : Bool} {txm : TPCCTransactionMarshalled}
    (hv : (Behaviour.newOrder ww txm).Valid sc) :
    ∃ (D : DistrictId sc) (d : District) (db₁ : Database),
      (∀ E : DistrictId sc, E.orders (.newOrder ww txm) = true ↔ E = D) ∧
      (newOrderMark txm d.dNextOId).hashKey =
        NewOrder.staticHashKey D.wId D.dId (UInt32.ofNat (3001 + bs.countP D.orders)) ∧
      (db₁.table .newOrder).cnt = bs.countP Behaviour.isNewOrder ∧
      (Behaviour.newOrder ww txm).execute sc db =
        db₁.insertRow sc .newOrder (newOrderMark txm d.dNextOId).hashKey
          (newOrderMark txm d.dNextOId) := by
  have hk : txm.KeysValid sc := hv.1
  obtain ⟨d, hd, hnext⟩ := hi.next hk.district
  have hread : db.readRow sc .district txm.districtKey = .ok d := by
    rw [Database.readRow_ok_iff, hk.districtKey_toNat]
    exact ⟨lt_tsize hk.districtKey_lt, hd⟩
  have hpos := sc.pos
  have hW := sc.lt_42950
  have hlt := hk.district.index_lt
  have hle := countP_orders_le bs hk.district
  have hfull := hi.notFull
  have horder := hi.order
  have hline := hi.orderLine
  have hlen := lines_length_le txm
  have ho := hk.orderKey_toNat (by omega : 1 ≤ d.dNextOId.toNat) (by omega)
  have hx := toUInt32_sub_one_le (by omega : 1 ≤ (newOrderRow txm d.dNextOId).hashKey.toNat)
  obtain ⟨db₁, h₁, hexec⟩ := execute_newOrder_eq hv hi.populated hread
    (by simp only [capacity]; omega)
    (fun k i => by
      have hl := hk.orderLineKey_toNat (newOrderRow txm d.dNextOId).hashKey k i
      have hk15 := k.isLt
      simp only [capacity]
      omega)
    (by simp only [capacity]; omega) (by simp only [capacity]; omega)
  refine ⟨hk.district, d, db₁, fun E => ?_, ?_, ?_, hexec⟩
  · rw [DistrictId.orders_iff hk, hk.districtKey_toNat]
    exact ⟨fun he => (DistrictId.eq_of_index_eq he).symm, fun he => he ▸ rfl⟩
  · have hid : d.dNextOId.toUInt32 = UInt32.ofNat (3001 + bs.countP hk.district.orders) := by
      rw [← hnext]
      exact (UInt32.ofNat_uInt64ToNat _).symm
    rw [← hid]
    rfl
  · rw [h₁]
    exact hi.count

/-- How the next behaviour ends. -/
theorem RunInv.execute_outcome (hi : RunInv sc bs db) (hv : b.Valid sc) :
    MarkFits sc bs b ∧ (∃ db', b.execute sc db = .ok db') ∨
      MarkFits sc bs b ∧ b.execute sc db = .error .indexIsFull ∧
        (tsize sc .newOrder).toNat < (bs ++ [b]).countP Behaviour.isNewOrder ∨
      ¬ MarkFits sc bs b ∧ b.execute sc db = .error .outOfBounds := by
  cases hb : b.isNewOrder with
  | false =>
    have hno : ∀ D : DistrictId sc, ¬ D.orders b = true := fun D ho =>
      Bool.false_ne_true (hb.symm.trans (DistrictId.orders_isNewOrder ho))
    exact .inl ⟨fun _ D hD => absurd hD (hno D), execute_ok hv hi.populated hb⟩
  | true =>
    cases b with
    | warehouseOp txm => exact absurd hb Bool.false_ne_true
    | payment ww txm => exact absurd hb Bool.false_ne_true
    | newOrder ww txm =>
      obtain ⟨D, d, db₂, hD, hkey, hcnt, hexec⟩ := hi.execute_eq hv
      rw [hexec, hkey]
      unfold Database.insertRow
      rw [hcnt]
      split
      · rename_i hroom
        split
        · rename_i hlt
          refine .inl ⟨fun _ E hE => ?_, _, rfl⟩
          obtain rfl := (hD E).mp hE
          exact hlt
        · rename_i hlt
          exact .inr (.inr ⟨fun h => hlt (h hroom D ((hD D).mpr rfl)), rfl⟩)
      · rename_i hroom
        have hcount := countP_snoc bs (.newOrder ww txm) Behaviour.isNewOrder
        rw [if_pos hb] at hcount
        exact .inr (.inl ⟨fun h => absurd h hroom, rfl, by omega⟩)

/-- **How a run ends.**  It goes through, it is stopped by a full table, or it
stores past the end of the table of new orders. -/
theorem run_outcome (hg : Generated sc db) (hv : ∀ b ∈ bs, b.Valid sc) :
    MarksFit sc bs ∧ (∃ db', runBehaviours sc bs db = .ok db') ∨
      MarksFit sc bs ∧ runBehaviours sc bs db = .error .indexIsFull ∧
        (tsize sc .newOrder).toNat < bs.countP Behaviour.isNewOrder ∨
      ¬ MarksFit sc bs ∧ runBehaviours sc bs db = .error .outOfBounds := by
  induction bs using List.reverseRecOn with
  | nil => exact .inl ⟨marksFit_nil, db, rfl⟩
  | append_singleton bs b ih =>
    have hv₀ : ∀ c ∈ bs, c.Valid sc := fun c hc => hv c (List.mem_append_left _ hc)
    have hvb := hv b (List.mem_append_right _ (List.mem_singleton_self b))
    have hsnoc : runBehaviours sc (bs ++ [b]) db =
        runBehaviours sc bs db >>= fun db => b.execute sc db := by
      unfold runBehaviours
      rw [List.foldlM_append]
      simp only [List.foldlM_cons, List.foldlM_nil, bind_pure]
    rw [hsnoc, marksFit_snoc]
    rcases ih hv₀ with ⟨hfit, db₁, h₁⟩ | ⟨hfit, h₁, hfull⟩ | ⟨hfit, h₁⟩
    · rw [bind_of_ok h₁]
      rcases (run_inv hg hv₀ h₁).execute_outcome hvb with ⟨hb, hok⟩ | ⟨hb, hstop⟩ | ⟨hb, hout⟩
      · exact .inl ⟨⟨hfit, hb⟩, hok⟩
      · exact .inr (.inl ⟨⟨hfit, hb⟩, hstop⟩)
      · exact .inr (.inr ⟨fun h => hb h.2, hout⟩)
    · have hcount := countP_snoc bs b Behaviour.isNewOrder
      rw [h₁]
      exact .inr (.inl ⟨⟨hfit, fun h => absurd h (by omega)⟩, rfl, by omega⟩)
    · rw [h₁]
      exact .inr (.inr ⟨fun h => hfit h.1, rfl⟩)

/-- A run stores past the end of an array exactly if a mark does not fit. -/
theorem run_outOfBounds_iff (hg : Generated sc db) (hv : ∀ b ∈ bs, b.Valid sc) :
    runBehaviours sc bs db = .error .outOfBounds ↔ ¬ MarksFit sc bs := by
  rcases run_outcome hg hv with ⟨hfit, db', hrun⟩ | ⟨hfit, hrun, -⟩ | ⟨hfit, hrun⟩
  · rw [hrun]
    exact ⟨fun he => (by cases he), fun h => absurd hfit h⟩
  · rw [hrun]
    exact ⟨fun he => (by cases he), fun h => absurd hfit h⟩
  · exact ⟨fun _ => hfit, fun _ => hrun⟩

/-- **Which runs store in bounds only.**  An insertion stores in bounds, or throws
and stores nothing, or stores past the end of its array, which is a fault of its
own; the last happens in a run exactly if a mark does not fit. -/
theorem insertions_inside_iff (sc : Scale) (draws : Draws) (bs : List Behaviour)
    (hv : ∀ b ∈ bs, b.Valid sc) :
    generate sc draws >>= runBehaviours sc bs ≠ .error .outOfBounds ↔ MarksFit sc bs := by
  obtain ⟨db₀, hgen, hg⟩ := generate_ok sc draws
  rw [bind_of_ok hgen, ne_eq, run_outOfBounds_iff hg hv, not_not]

end

/-! ## Orders of one district -/

/-- `n` orders of district `(1, d)`. -/
def exampleOrders (d : UInt32) (n : Nat) : List Behaviour :=
  List.replicate n (.newOrder true (exampleNewOrder d))

theorem exampleOrders_valid {d : UInt32} (h : Within 10 d) (n : Nat) :
    ∀ b ∈ exampleOrders d n, b.Valid Scale.one := by
  intro b hb
  rw [List.eq_of_mem_replicate hb]
  have hv := exampleNewOrder_valid h
  exact ⟨hv.keys, hv.items rfl⟩

/-- The mark of a first order fits. -/
theorem insertions_inside_one :
    generate Scale.one exampleDraws >>= runBehaviours Scale.one (exampleOrders 10 1) ≠
      .error .outOfBounds := by
  rw [insertions_inside_iff Scale.one exampleDraws _ (exampleOrders_valid (by decide) 1)]
  intro pre b post hbs _ D hD
  obtain ⟨rfl, rfl, rfl⟩ : pre = [] ∧ b = .newOrder true (exampleNewOrder 10) ∧ post = [] := by
    simpa [exampleOrders, List.singleton_eq_append_iff] using hbs
  obtain ⟨hw, hd⟩ := of_decide_eq_true hD
  rw [← hw, ← hd, List.countP_nil]
  decide

/-- The last district has 1357440 orders before its marks reach the end of their
table; the one after them is stored past it, though the table is not full. -/
theorem stored_outside :
    generate Scale.one exampleDraws >>= runBehaviours Scale.one (exampleOrders 10 1357441) =
      .error .outOfBounds := by
  obtain ⟨db₀, hgen, hg⟩ := generate_ok Scale.one exampleDraws
  rw [bind_of_ok hgen, run_outOfBounds_iff hg (exampleOrders_valid (by decide) 1357441)]
  intro hfit
  have hcount : ∀ {p : Behaviour → Bool}, p (.newOrder true (exampleNewOrder 10)) = true →
      (exampleOrders 10 1357440).countP p = 1357440 := by
    intro p hp
    rw [exampleOrders, List.countP_replicate, if_pos hp]
  have hlt := hfit (exampleOrders 10 1357440) (.newOrder true (exampleNewOrder 10)) []
    List.replicate_succ' (by rw [hcount rfl, tsize_toNat]; decide)
    ⟨1, 10, by decide, by decide⟩ (by decide)
  rw [hcount (by decide)] at hlt
  exact absurd hlt (by decide)

end Doradd.Tpcc
