import Doradd.Tpcc.Runs

/-!
# Orders of a long run

Every district has `stride` slots for its orders, and takes one for every
NewOrder; the log is replayed forever, so in a long run a district runs past its
slots into those of the next one.

* `Kept.step`, `run_kept`: a NewOrder within its district's slots overwrites no
  order;
* `WithinSlots.marksFit`: such a run goes through unless it fills a table;
* `orders_kept_iff`: no order of a run is lost exactly if no district but the
  last has taken more than its share, and the last has not left the table.
-/

namespace Doradd.Tpcc

open Lib

/-- District `D` has taken `m` order ids, and all of its orders are in their
slots. -/
structure OrdersKept {sc : Scale} (D : DistrictId sc) (m : Nat) (db : Database) : Prop where
  next : ∃ d : District,
    (db.table .district).map (District.staticHashKey D.wId D.dId).toNat = some d ∧
      d.dNextOId.toNat = 3001 + m
  orders : ∀ o, 1 ≤ o → o ≤ 3000 + m → ∃ r : Order,
    (db.table .order).map (Order.staticHashKey D.wId D.dId (UInt32.ofNat o)).toNat = some r ∧
      r.ids = (D.wId, D.dId, o)
  newOrders : ∀ o, 3001 ≤ o → o ≤ 3000 + m → ∃ r : NewOrder,
    (db.table .newOrder).map (NewOrder.staticHashKey D.wId D.dId (UInt32.ofNat o)).toNat = some r ∧
      r.ids = (D.wId, D.dId, o)

/-- Every district but the last has taken no more ids than it has slots for; the
last, which has no neighbour, stays in the table of new orders and its ids in
32 bits. -/
structure WithinSlots (sc : Scale) (bs : List Behaviour) : Prop where
  share : ∀ D : DistrictId sc, D.index + 1 < sc.numWarehouses.toNat * 10 →
    bs.countP D.orders ≤ maxOrderTransactions.toNat
  last : ∀ D : DistrictId sc, D.index + 1 = sc.numWarehouses.toNat * 10 →
    D.index * stride.toNat + 3000 + bs.countP D.orders ≤ (tsize sc .newOrder).toNat ∧
      3000 + bs.countP D.orders < 2 ^ 32

section

variable {sc : Scale} {db db' : Database} {b : Behaviour} {bs : List Behaviour}

/-! ## Nothing is lost within the slots -/

/-- In table `tab` every district has its rows from id `first` on where their ids
put them; `ids` is the primary key of a row. -/
def Filed {T : Type} (sc : Scale) (bs : List Behaviour) (ids : T → UInt32 × UInt32 × Nat)
    (first : Nat) (tab : Table T) : Prop :=
  ∀ (D : DistrictId sc) (o : Nat), first ≤ o → o ≤ 3000 + bs.countP D.orders →
    ∃ r : T, tab.map (D.index * 6840 + (o - 1)) = some r ∧ ids r = (D.wId, D.dId, o)

/-- No order has been lost. -/
structure Kept (sc : Scale) (bs : List Behaviour) (db : Database) : Prop where
  orders : Filed sc bs Order.ids 1 (db.table .order)
  newOrders : Filed sc bs NewOrder.ids 3001 (db.table .newOrder)

theorem Generated.kept (hg : Generated sc db) : Kept sc [] db where
  orders := by
    intro D o h₁ h₂
    rw [List.countP_nil] at h₂
    obtain ⟨i, hi, hio⟩ := @exists_within 3000 (o - 1) (by omega) (by omega)
    obtain ⟨r, hr, hid, hd, hw⟩ := hg.orders D i hi
    have ho : r.oId.toNat = o := by
      rw [hid, UInt32.toNat_toUInt64]
      omega
    refine ⟨r, ?_, by rw [Order.ids, hw, hd, ho]⟩
    rw [← hr]
    congr 1
    omega
  newOrders := by
    intro D o h₁ h₂
    rw [List.countP_nil] at h₂
    omega

theorem WithinSlots.init (h : WithinSlots sc (bs ++ [b])) : WithinSlots sc bs := by
  have hmono : ∀ D : DistrictId sc, bs.countP D.orders ≤ (bs ++ [b]).countP D.orders := by
    intro D
    rw [countP_snoc]
    exact Nat.le_add_right _ _
  constructor
  · intro D hD
    exact (hmono D).trans (h.share D hD)
  · intro D hD
    obtain ⟨h₁, h₂⟩ := h.last D hD
    have := hmono D
    exact ⟨by omega, by omega⟩

theorem WithinSlots.id_lt (h : WithinSlots sc bs) (D : DistrictId sc) :
    3000 + bs.countP D.orders < 2 ^ 32 := by
  rcases Nat.lt_or_ge (D.index + 1) (sc.numWarehouses.toNat * 10) with hD | hD
  · have := h.share D hD
    rw [maxOrderTransactions_toNat] at this
    omega
  · have hlt := D.index_lt
    exact (h.last D (by omega)).2

/-- The slot that a NewOrder takes is not the slot of an earlier order. -/
theorem WithinSlots.slot_ne (h : WithinSlots sc (bs ++ [b])) {D E : DistrictId sc}
    (hD : D.orders b = true) {o : Nat} (h₁ : 1 ≤ o) (h₂ : o ≤ 3000 + bs.countP E.orders) :
    E.index * 6840 + (o - 1) ≠ D.index * 6840 + (3000 + bs.countP D.orders) := by
  have hltD := D.index_lt
  have hltE := E.index_lt
  rcases Nat.lt_trichotomy E.index D.index with hlt | heq | hlt
  · -- the other district comes first and has not left its slots
    have hE := h.init.share E (by omega)
    rw [maxOrderTransactions_toNat] at hE
    omega
  · obtain rfl := DistrictId.eq_of_index_eq heq
    omega
  · -- this district comes first and does not leave its slots now
    have hshare := h.share D (by omega)
    rw [countP_snoc, if_pos hD, maxOrderTransactions_toNat] at hshare
    omega

/-- A table into which a NewOrder files its row. -/
theorem Filed.push {T : Type} {ids : T → UInt32 × UInt32 × Nat} {first : Nat} {tab : Table T}
    (hf : Filed sc bs ids first tab) (h₁ : 1 ≤ first) (hs : WithinSlots sc (bs ++ [b]))
    {D : DistrictId sc} (hD : ∀ E : DistrictId sc, E.orders b = true ↔ E = D) {r : T}
    (hr : ids r = (D.wId, D.dId, 3001 + bs.countP D.orders)) :
    Filed sc (bs ++ [b]) ids first
      (tab.push (D.index * 6840 + (3000 + bs.countP D.orders)) r) := by
  intro E o ho ho'
  rw [Table.push_map]
  rcases Nat.lt_or_ge (3000 + bs.countP E.orders) o with hnew | hold
  · rw [countP_snoc] at ho'
    split at ho'
    · rename_i hE
      obtain rfl := (hD E).mp hE
      obtain rfl : o = 3001 + bs.countP E.orders := by omega
      refine ⟨r, ?_, hr⟩
      rw [← Table.set_map_self tab _ r]
      congr 1
      omega
    · omega
  · rw [Table.set_map_of_ne _ (hs.slot_ne ((hD D).mpr rfl) (by omega) hold)]
    exact hf E o ho hold

/-- **Step.** -/
theorem Kept.step (hkept : Kept sc bs db) (hi : RunInv sc bs db)
    (hs : WithinSlots sc (bs ++ [b])) (hv : b.Valid sc) (h : b.execute sc db = .ok db') :
    Kept sc (bs ++ [b]) db' := by
  cases hb : b.isNewOrder with
  | false =>
    have hno : ∀ D : DistrictId sc, (bs ++ [b]).countP D.orders = bs.countP D.orders := by
      intro D
      rw [countP_snoc, if_neg fun ho => ?_, Nat.add_zero]
      exact Bool.false_ne_true (hb.symm.trans (DistrictId.orders_isNewOrder ho))
    constructor
    · intro D o h₁ h₂
      rw [hno] at h₂
      rw [execute_other hb h (by decide)]
      exact hkept.orders D o h₁ h₂
    · intro D o h₁ h₂
      rw [hno] at h₂
      rw [execute_other hb h (by decide)]
      exact hkept.newOrders D o h₁ h₂
  | true =>
    cases b with
    | warehouseOp txm => exact absurd hb Bool.false_ne_true
    | payment ww txm => exact absurd hb Bool.false_ne_true
    | newOrder ww txm =>
      obtain ⟨D, hD, -, ⟨r, hr, hrids⟩, ⟨k, n, hn, -, hnids⟩⟩ := hi.placed hv h
      have hid := hs.id_lt D
      rw [countP_snoc, if_pos ((hD D).mpr rfl)] at hid
      obtain ⟨rfl, hids⟩ := hnids (by omega)
      constructor
      · rw [hr]
        exact hkept.orders.push (by decide) hs hD hrids
      · rw [hn]
        exact hkept.newOrders.push (by decide) hs hD hids

/-- **Run.** -/
theorem run_kept (hg : Generated sc db) (hv : ∀ b ∈ bs, b.Valid sc) (hs : WithinSlots sc bs)
    (h : runBehaviours sc bs db = .ok db') : Kept sc bs db' := by
  induction bs using List.reverseRecOn generalizing db' with
  | nil =>
    cases foldlM_nil_ok.mp h
    exact hg.kept
  | append_singleton bs b ih =>
    obtain ⟨db₁, h₁, hb⟩ := foldlM_snoc_ok.mp h
    have hv₀ : ∀ c ∈ bs, c.Valid sc := fun c hc => hv c (List.mem_append_left _ hc)
    exact (ih hv₀ hs.init h₁).step (run_inv hg hv₀ h₁) hs
      (hv b (List.mem_append_right _ (List.mem_singleton_self b))) hb

/-! ## Which runs go through -/

theorem WithinSlots.keys_le (h : WithinSlots sc bs) (D : DistrictId sc) :
    D.index * 6840 + 3000 + bs.countP D.orders ≤ sc.numWarehouses.toNat * 1422000 := by
  have hlt := D.index_lt
  rcases Nat.lt_or_ge (D.index + 1) (sc.numWarehouses.toNat * 10) with hD | hD
  · have hshare := h.share D hD
    rw [maxOrderTransactions_toNat] at hshare
    omega
  · have hlast := (h.last D (by omega)).1
    rw [tsize_toNat, stride_toNat] at hlast
    exact hlast

theorem orderStaticKey_ofNat (D : DistrictId sc) {o : Nat} (h : 1 ≤ o) (h' : o < 2 ^ 32) :
    (Order.staticHashKey D.wId D.dId (UInt32.ofNat o)).toNat = D.index * 6840 + (o - 1) := by
  have he : (UInt32.ofNat o).toNat = o := UInt32.toNat_ofNat_of_lt' h'
  rw [orderStaticKey_toNat, toNat_sub_one (by omega), he]

/-- Within the slots every mark fits. -/
theorem marksFit_of_keys_le (hkeys : ∀ D : DistrictId sc,
    D.index * 6840 + 3000 + bs.countP D.orders ≤ sc.numWarehouses.toNat * 1422000 ∧
      3000 + bs.countP D.orders < 2 ^ 32) : MarksFit sc bs := by
  rintro pre b post rfl - D hD
  obtain ⟨hkey, hid⟩ := hkeys D
  rw [List.countP_append, List.countP_cons, if_pos hD] at hkey hid
  have he : (NewOrder.staticHashKey D.wId D.dId (UInt32.ofNat (3001 + pre.countP D.orders))).toNat =
      D.index * 6840 + (3001 + pre.countP D.orders - 1) :=
    orderStaticKey_ofNat D (by omega) (by omega)
  refine lt_tsize ?_
  rw [he]
  simp only [capacity]
  omega

theorem WithinSlots.marksFit (h : WithinSlots sc bs) : MarksFit sc bs :=
  marksFit_of_keys_le fun D => ⟨h.keys_le D, h.id_lt D⟩

theorem Kept.ordersKept (hkept : Kept sc bs db) (hi : RunInv sc bs db) (hs : WithinSlots sc bs)
    (D : DistrictId sc) : OrdersKept D (bs.countP D.orders) db where
  next := by
    rw [districtKey_toNat]
    exact hi.next D
  orders := by
    intro o h₁ h₂
    have hid := hs.id_lt D
    rw [orderStaticKey_ofNat D h₁ (by omega)]
    exact hkept.orders D o h₁ h₂
  newOrders := by
    intro o h₁ h₂
    have hid := hs.id_lt D
    have hkey : (NewOrder.staticHashKey D.wId D.dId (UInt32.ofNat o)).toNat =
        D.index * 6840 + (o - 1) := orderStaticKey_ofNat D (by omega) (by omega)
    rw [hkey]
    exact hkept.newOrders D o h₁ h₂

/-! ## Outside the slots something is lost -/

/-- A run that loses no order has stayed within the slots. -/
theorem RunInv.withinSlots (hi : RunInv sc bs db)
    (hkept : ∀ D : DistrictId sc, OrdersKept D (bs.countP D.orders) db) : WithinSlots sc bs where
  share := by
    intro D hD
    rw [maxOrderTransactions_toNat]
    by_contra hmore
    -- order 1 of the next district is gone
    obtain ⟨r, hr, hid⟩ := hi.spilled D (by omega)
    obtain ⟨E, hE⟩ := DistrictId.exists_index_eq hD
    obtain ⟨r', hr', hids⟩ := (hkept E).orders 1 (Nat.le_refl 1) (by omega)
    rw [orderStaticKey_ofNat E (Nat.le_refl 1) (by decide), hE, Nat.sub_self, Nat.add_zero, hr,
      Option.some.injEq] at hr'
    have : r'.oId.toNat = 1 := congrArg (fun p => p.2.2) hids
    rw [hr'] at hid
    omega
  last := by
    intro D hD
    have hpos := sc.pos
    have hlt := sc.lt_42950
    rw [tsize_toNat, stride_toNat]
    simp only [capacity]
    rcases Nat.eq_zero_or_pos (bs.countP D.orders) with h0 | hsome
    · rw [h0]
      exact ⟨by omega, by omega⟩
    · -- the mark of the last order is in its table, under an id of 32 bits
      obtain ⟨r, hr, hids⟩ := (hkept D).newOrders (3000 + bs.countP D.orders) (by omega) (by omega)
      have hid : r.noOId.toNat = 3000 + bs.countP D.orders := congrArg (fun p => p.2.2) hids
      have hid' := r.noOId.toNat_lt
      have hkey : (NewOrder.staticHashKey D.wId D.dId
          (UInt32.ofNat (3000 + bs.countP D.orders))).toNat =
          D.index * 6840 + (3000 + bs.countP D.orders - 1) :=
        orderStaticKey_ofNat D (by omega) (by omega)
      have hbound := hi.bounded _ r hr
      rw [hkey] at hbound
      exact ⟨by omega, by omega⟩

/-- **Which runs lose no order.**  A run in which no table reports that it is full
has every order of every district in its place if and only if it has stayed
within the slots of the districts. -/
theorem orders_kept_iff (sc : Scale) (draws : Draws) (bs : List Behaviour)
    (hv : ∀ b ∈ bs, b.Valid sc)
    (hfull : generate sc draws >>= runBehaviours sc bs ≠ .error .indexIsFull) :
    (∃ db, generate sc draws >>= runBehaviours sc bs = .ok db ∧
        ∀ D : DistrictId sc, OrdersKept D (bs.countP D.orders) db) ↔
      WithinSlots sc bs := by
  obtain ⟨db₀, hgen, hg⟩ := generate_ok sc draws
  rw [bind_of_ok hgen] at hfull ⊢
  constructor
  · rintro ⟨db, hrun, hkept⟩
    exact (run_inv hg hv hrun).withinSlots hkept
  · intro hs
    rcases run_outcome hg hv with ⟨-, db, hrun⟩ | ⟨-, he, -⟩ | ⟨hfit, -⟩
    · exact ⟨db, hrun, fun D =>
        (run_kept hg hv hs hrun).ordersKept (run_inv hg hv hrun) hs D⟩
    · exact absurd he hfull
    · exact absurd hs.marksFit hfit

end

/-- `n` orders of district `(1, 1)`. -/
def exampleRun (n : Nat) : List Behaviour := List.replicate n (.newOrder true (exampleNewOrder 1))

theorem exampleRun_valid (n : Nat) : ∀ b ∈ exampleRun n, b.Valid Scale.one :=
  exampleOrders_valid (by decide) n

theorem countP_exampleRun_le (p : Behaviour → Bool) (n : Nat) : (exampleRun n).countP p ≤ n :=
  List.countP_le_length.trans (Nat.le_of_eq List.length_replicate)

theorem exampleRun_ok {n : Nat} (h : n ≤ 1000000) : ∃ db,
    generate Scale.one exampleDraws >>= runBehaviours Scale.one (exampleRun n) = .ok db := by
  obtain ⟨db₀, hgen, hg⟩ := generate_ok Scale.one exampleDraws
  rw [bind_of_ok hgen]
  have hone : Scale.one.numWarehouses.toNat = 1 := rfl
  have hroom : (tsize Scale.one .newOrder).toNat = 1422000 := rfl
  have hfit : MarksFit Scale.one (exampleRun n) := by
    refine marksFit_of_keys_le fun D => ?_
    have hlt := D.index_lt
    have hle := countP_exampleRun_le D.orders n
    omega
  rcases run_outcome hg (exampleRun_valid n) with ⟨-, hok⟩ | ⟨-, -, hfull⟩ | ⟨hno, -⟩
  · exact hok
  · have hle := countP_exampleRun_le Behaviour.isNewOrder n
    omega
  · exact absurd hfit hno

theorem orders_kept_3840 : ∃ db,
    generate Scale.one exampleDraws >>= runBehaviours Scale.one (exampleRun 3840) = .ok db ∧
      ∀ D : DistrictId Scale.one, OrdersKept D ((exampleRun 3840).countP D.orders) db := by
  refine (orders_kept_iff Scale.one exampleDraws (exampleRun 3840)
    (exampleRun_valid 3840) ?_).mpr
    ⟨fun D _ => countP_exampleRun_le D.orders 3840, fun D _ => ?_⟩
  · obtain ⟨db, hrun⟩ := @exampleRun_ok 3840 (by decide)
    rw [hrun]
    intro he
    cases he
  · have hone : Scale.one.numWarehouses.toNat = 1 := rfl
    have hlt := D.index_lt
    have hle := countP_exampleRun_le D.orders 3840
    rw [tsize_toNat, stride_toNat]
    simp only [capacity]
    exact ⟨by omega, by omega⟩

/-- After one order more, the first order of district `(1, 2)` is gone. -/
theorem order_lost : ∃ db,
    generate Scale.one exampleDraws >>= runBehaviours Scale.one (exampleRun 3841) = .ok db ∧
      ¬ ∀ D : DistrictId Scale.one, OrdersKept D ((exampleRun 3841).countP D.orders) db := by
  obtain ⟨db, hrun⟩ := @exampleRun_ok 3841 (by decide)
  refine ⟨db, hrun, fun hkept => ?_⟩
  obtain ⟨db₀, hgen, hg⟩ := generate_ok Scale.one exampleDraws
  rw [bind_of_ok hgen] at hrun
  have hs := (run_inv hg (exampleRun_valid 3841) hrun).withinSlots hkept
  have hshare := hs.share ⟨1, 1, by decide, by decide⟩ (by decide)
  have hall : (exampleRun 3841).countP
      (DistrictId.orders (⟨1, 1, by decide, by decide⟩ : DistrictId Scale.one)) = 3841 := by
    unfold exampleRun
    rw [List.countP_replicate, if_pos (by decide)]
  rw [hall, maxOrderTransactions_toNat] at hshare
  omega

end Doradd.Tpcc
