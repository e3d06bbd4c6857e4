import Doradd.Lib.Footprint
import Doradd.Tpcc.Progress

/-!
# What a behaviour touches

Orders, new orders and order lines have no cown.  Two NewOrders of different
districts stay apart there because each keeps to slots that are its district's
own, as long as the order ids stay in range.

* `keys_mem_orderSlots`: the keys derived from an order id in range;
* `execute_local`: the footprint of a behaviour;
* `disjoint_footprint`: behaviours that share no cown have disjoint footprints.
-/

namespace Doradd.Tpcc

open Lib

/-! ## Footprints -/

def Cown.cell (c : Cown) : Database.Cell := (c.1, c.2.toNat)

/-- The slots that the orders of district `D` go to: the key of an order line is
the key of a key, so the lines lie at twice the offset of the orders. -/
def orderSlots (D : Nat) : Set Database.Cell :=
  { c | (c.1 = .order ∨ c.1 = .newOrder) ∧ c.2 / 6840 = D ∨
    c.1 = .orderLine ∧ 2 * (D * 6840) + 2999 ≤ c.2 / 15 ∧ c.2 / 15 ≤ 2 * (D * 6840) + 6838 }

/-- The slots that a behaviour writes to without holding a cown. -/
def Behaviour.slots : Behaviour → Set Database.Cell
  | .newOrder _ txm => orderSlots txm.districtKey.toNat
  | _ => ∅

def Behaviour.footprint (b : Behaviour) : Set Database.Cell :=
  { c | ∃ a ∈ b.cowns, a.cell = c } ∪ b.slots

/-- Order ids for which the slots of different districts stay apart. -/
def InRange (oid : UInt64) : Prop := 3001 ≤ oid.toNat ∧ oid.toNat ≤ 6840

/-- The next order id of the behaviour's district is in range. -/
def Behaviour.InRange (sc : Scale) (db : Database) : Behaviour → Prop
  | .newOrder _ txm => ∃ d, db.readRow sc .district txm.districtKey = .ok d ∧
      Tpcc.InRange d.dNextOId
  | _ => True

section

variable {sc : Scale} {txm : TPCCTransactionMarshalled} {K : Set Database.Cell}

/-! ### Accesses -/

theorem readRow_determined {t : TableId} {key : UInt64} (hK : (t, key.toNat) ∈ K) :
    ∀ (db db' : Database) (r r' : Row t), db.readRow sc t key = .ok r →
      db'.readRow sc t key = .ok r' → (∀ c ∈ K, db.obs c = db'.obs c) → r = r' := by
  intro db db' r r' h h' he
  have h₁ := (Database.readRow_ok_iff.mp h).2
  have h₂ := (Database.readRow_ok_iff.mp h').2
  have h₃ : (db.table t).map key.toNat = (db'.table t).map key.toNat := he _ hK
  rw [h₁, h₂] at h₃
  exact Option.some.inj h₃

theorem updateRow_local {t : TableId} {key : UInt64} (f : Row t → Row t) (hK : (t, key.toNat) ∈ K) :
    LocalStep Database.obs K fun db => db.updateRow sc t key f where
  frame := by
    rintro db db' h c hc
    obtain ⟨r, -, rfl⟩ := Database.updateRow_ok_iff.mp h
    exact db.obs_put_of_ne t rfl fun he => hc (he ▸ hK)
  reads := by
    rintro db db' _ _ h h' he c hc
    obtain ⟨r, hr, rfl⟩ := Database.updateRow_ok_iff.mp h
    obtain ⟨r', hr', rfl⟩ := Database.updateRow_ok_iff.mp h'
    obtain rfl := readRow_determined hK db db' r r' hr hr' he
    by_cases hck : c = (t, key.toNat)
    · subst hck
      rw [db.obs_put_self t rfl, db'.obs_put_self t rfl]
    · rw [db.obs_put_of_ne t rfl hck, db'.obs_put_of_ne t rfl hck, he c hc]

theorem insertRow_local {t : TableId} {key : UInt64} (r : Row t) (hK : (t, key.toNat) ∈ K) :
    LocalStep Database.obs K fun db => db.insertRow sc t key r where
  frame := by
    rintro db db' h c hc
    obtain ⟨-, -, rfl⟩ := Database.insertRow_ok_iff.mp h
    exact db.obs_put_of_ne t (Table.push_map _ _ _) fun he => hc (he ▸ hK)
  reads := by
    rintro db db' _ _ h h' he c hc
    obtain ⟨-, -, rfl⟩ := Database.insertRow_ok_iff.mp h
    obtain ⟨-, -, rfl⟩ := Database.insertRow_ok_iff.mp h'
    by_cases hck : c = (t, key.toNat)
    · subst hck
      rw [db.obs_put_self t (Table.push_map _ _ _), db'.obs_put_self t (Table.push_map _ _ _)]
    · rw [db.obs_put_of_ne t (Table.push_map _ _ _) hck,
        db'.obs_put_of_ne t (Table.push_map _ _ _) hck, he c hc]

/-! ### Bodies -/

theorem newOrderBody_local {oid : UInt64}
    (hdistrict : (.district, txm.districtKey.toNat) ∈ K)
    (hstock : ∀ k ∈ txm.lines, (.stock, (txm.stockKey k).toNat) ∈ K)
    (hitem : ∀ k ∈ txm.lines, (.item, (txm.itemKey k).toNat) ∈ K)
    (horder : (.order, (newOrderRow txm oid).hashKey.toNat) ∈ K)
    (hnew : (.newOrder, (newOrderMark txm oid).hashKey.toNat) ∈ K)
    (hline : ∀ k i,
      (.orderLine, (orderLine txm (newOrderRow txm oid).hashKey k i).hashKey.toNat) ∈ K) :
    LocalStep Database.obs K (newOrderBody sc txm oid) := by
  refine (updateRow_local takeOrderId hdistrict).bind (.bind (.foldlM fun k hk => ?_)
    (.bind (insertRow_local _ horder) (insertRow_local _ hnew)))
  exact (updateRow_local _ (hstock k hk)).bind
    (.read (readRow_determined (hitem k hk)) fun i => insertRow_local _ (hline k i))

/-- With an order id in range the keys of the order, of its mark and of its lines
are slots of the district. -/
theorem keys_mem_orderSlots (hk : txm.KeysValid sc) {oid : UInt64} (h : InRange oid) :
    (.order, (newOrderRow txm oid).hashKey.toNat) ∈ orderSlots txm.districtKey.toNat ∧
      (.newOrder, (newOrderMark txm oid).hashKey.toNat) ∈ orderSlots txm.districtKey.toNat ∧
      ∀ k i, (.orderLine, (orderLine txm (newOrderRow txm oid).hashKey k i).hashKey.toNat) ∈
        orderSlots txm.districtKey.toNat := by
  obtain ⟨h₁, h₂⟩ := h
  have hlt := hk.district.index_lt_429490
  have ho := hk.orderKey_toNat (by omega : 1 ≤ oid.toNat) (by omega)
  have hn := hk.newOrderKey_toNat oid
  rw [toNat_toUInt32_sub_one (by omega) (by omega)] at hn
  rw [hk.districtKey_toNat]
  refine ⟨.inl ⟨.inl rfl, ?_⟩, .inl ⟨.inr rfl, ?_⟩, fun k i => .inr ⟨rfl, ?_⟩⟩
  · simp only
    omega
  · simp only
    omega
  · have hl := hk.orderLineKey_toNat (newOrderRow txm oid).hashKey k i
    rw [toNat_toUInt32_sub_one (by omega) (by omega)] at hl
    have := k.isLt
    simp only
    omega

variable {b b' : Behaviour}

theorem mem_footprint {a : Cown} (h : a ∈ b.cowns) : (a.1, a.2.toNat) ∈ b.footprint :=
  .inl ⟨a, h, rfl⟩

theorem others_subset_cowns {a : Cown} (h : a ∈ b.others) : a ∈ b.cowns := by
  unfold Behaviour.cowns
  split
  · exact List.mem_cons_of_mem _ h
  · exact h

theorem opWarehouse_local (sc : Scale) (b : Behaviour) :
    LocalStep Database.obs b.footprint (b.opWarehouse sc) := by
  unfold Behaviour.opWarehouse
  split
  · rename_i hw
    have hmem : (.warehouse, b.txm.warehouseKey) ∈ b.cowns := by
      unfold Behaviour.cowns
      rw [if_pos hw]
      exact List.mem_cons_self
    exact updateRow_local _ (mem_footprint hmem)
  · exact localOn_eq.imp fun _ _ h => (Except.ok.inj h).symm

theorem body_local (hv : b.Valid sc) : LocalOn Database.obs b.footprint fun db db' =>
    b.InRange sc db ∧ b.body sc db = .ok db' := by
  cases b with
  | warehouseOp txm => exact localOn_eq.imp fun _ _ h => (Except.ok.inj h.2).symm
  | payment ww txm =>
    have hd : (.district, txm.districtKey) ∈ (Behaviour.payment ww txm).cowns :=
      others_subset_cowns List.mem_cons_self
    have hc : (.customer, txm.customerKey) ∈ (Behaviour.payment ww txm).cowns :=
      others_subset_cowns (List.mem_cons_of_mem _ List.mem_cons_self)
    have hlocal : LocalStep Database.obs (Behaviour.payment ww txm).footprint
        (paymentBody sc txm) :=
      (updateRow_local _ (mem_footprint hd)).bind (updateRow_local _ (mem_footprint hc))
    exact hlocal.imp fun _ _ h => h.2
  | newOrder ww txm =>
    have hd : (.district, txm.districtKey) ∈ (Behaviour.newOrder ww txm).cowns :=
      others_subset_cowns List.mem_cons_self
    have hs : ∀ k ∈ txm.lines, (.stock, txm.stockKey k) ∈ (Behaviour.newOrder ww txm).cowns :=
      fun k hk => others_subset_cowns (List.mem_cons_of_mem _ (List.mem_cons_of_mem _
        (List.mem_flatMap.mpr ⟨k, hk, List.mem_cons_self⟩)))
    have hi : ∀ k ∈ txm.lines, (.item, txm.itemKey k) ∈ (Behaviour.newOrder ww txm).cowns :=
      fun k hk => others_subset_cowns (List.mem_cons_of_mem _ (List.mem_cons_of_mem _
        (List.mem_flatMap.mpr ⟨k, hk, List.mem_cons_of_mem _ List.mem_cons_self⟩)))
    -- the order id is read from the district's row, which the behaviour holds
    refine (LocalOn.choose (T := fun (d : District) db db' =>
      InRange d.dNextOId ∧ newOrderBody sc txm d.dNextOId db = .ok db')
      (@readRow_determined sc _ _ _ (mem_footprint hd)) fun d => ?_).imp ?_
    · by_cases hin : InRange d.dNextOId
      · obtain ⟨ho, hn, hl⟩ := keys_mem_orderSlots hv.1 hin
        have hlocal : LocalStep Database.obs (Behaviour.newOrder ww txm).footprint
            (newOrderBody sc txm d.dNextOId) :=
          newOrderBody_local (mem_footprint hd) (fun k hk => mem_footprint (hs k hk))
            (fun k hk => mem_footprint (hi k hk)) (.inr ho) (.inr hn) fun k i => .inr (hl k i)
        exact hlocal.imp fun _ _ h => h.2
      · exact localOn_eq.imp fun _ _ h => absurd h.1 hin
    · rintro db db' ⟨⟨d, hread, hin⟩, hbody⟩
      obtain ⟨d', hread', hbody⟩ := bind_eq_ok.mp hbody
      obtain rfl : d = d' := Except.ok.inj (hread.symm.trans hread')
      exact ⟨d, hread, hin, hbody⟩

/-- **Footprint of a behaviour** whose order id, if it takes one, is in range. -/
theorem execute_local (hv : b.Valid sc) : LocalOn Database.obs b.footprint fun db db' =>
    b.InRange sc db ∧ b.execute sc db = .ok db' := by
  refine (LocalOn.comp (opWarehouse_local sc b) (body_local hv)).imp ?_
  rintro db db' ⟨hin, h⟩
  obtain ⟨db₁, hw, hb⟩ := bind_eq_ok.mp h
  refine ⟨db₁, hw, ?_, hb⟩
  cases b with
  | warehouseOp txm => trivial
  | payment ww txm => trivial
  | newOrder ww txm =>
    obtain ⟨d, hread, hin⟩ := hin
    exact ⟨d, by rw [readRow_congr (opWarehouse_table hw (by decide))]; exact hread, hin⟩

/-! ## Conflicts -/

/-- Two behaviours share a cown. -/
def Conflict (b b' : Behaviour) : Prop := ∃ a ∈ b.cowns, a ∈ b'.cowns

instance (b b' : Behaviour) : Decidable (Conflict b b') :=
  inferInstanceAs (Decidable (∃ a ∈ b.cowns, a ∈ b'.cowns))

theorem cell_inj {a a' : Cown} (h : a.cell = a'.cell) : a = a' := by
  unfold Cown.cell at h
  rw [Prod.mk.injEq] at h
  exact Prod.ext h.1 (UInt64.toNat_inj.mp h.2)

theorem cowns_static {a : Cown} (h : a ∈ b.cowns) : a.1.Static := by
  have hmem : a.1 ∈ [TableId.warehouse, .district, .customer, .stock, .item] := by
    have hothers : ∀ a ∈ b.others, a.1 ∈ [TableId.district, .customer, .stock, .item] := by
      intro a ha
      cases b with
      | warehouseOp txm => exact absurd ha List.not_mem_nil
      | payment ww txm =>
        simp only [Behaviour.others, List.mem_cons, List.not_mem_nil, or_false] at ha
        rcases ha with rfl | rfl <;> simp
      | newOrder ww txm =>
        simp only [Behaviour.others, List.mem_cons, List.mem_flatMap, List.not_mem_nil,
          or_false] at ha
        rcases ha with rfl | rfl | ⟨k, -, rfl | rfl⟩ <;> simp
    unfold Behaviour.cowns at h
    split at h
    · rcases List.mem_cons.mp h with rfl | h
      · exact List.mem_cons_self
      · exact List.mem_cons_of_mem _ (hothers a h)
    · exact List.mem_cons_of_mem _ (hothers a h)
  have hstatic : ∀ t ∈ [TableId.warehouse, .district, .customer, .stock, .item], t.Static := by
    decide
  exact hstatic a.1 hmem

theorem slots_not_static {c : Database.Cell} (h : c ∈ b.slots) : ¬ c.1.Static := by
  cases b with
  | newOrder ww txm =>
    rintro ⟨ho, hn, hl⟩
    rcases h with ⟨h | h, -⟩ | ⟨h, -⟩
    · exact ho h
    · exact hn h
    · exact hl h
  | warehouseOp txm => exact absurd h (Set.notMem_empty c)
  | payment ww txm => exact absurd h (Set.notMem_empty c)

theorem orderSlots_inj {D E : Nat} {c : Database.Cell} (h : c ∈ orderSlots D)
    (h' : c ∈ orderSlots E) : D = E := by
  rcases h with ⟨ht, h⟩ | ⟨ht, h⟩
  · rcases h' with ⟨-, h'⟩ | ⟨ht', -⟩
    · exact h.symm.trans h'
    · rw [ht'] at ht
      simp at ht
  · rcases h' with ⟨ht', -⟩ | ⟨-, h'⟩
    · rw [ht] at ht'
      simp at ht'
    · omega

/-- Behaviours that share no cown do not share a slot either. -/
theorem disjoint_footprint (h : ¬ Conflict b b') : Disjoint b.footprint b'.footprint := by
  rw [Set.disjoint_left]
  rintro c (⟨a, ha, rfl⟩ | hs) (⟨a', ha', hcell⟩ | hs')
  · exact h ⟨a, ha, cell_inj hcell ▸ ha'⟩
  · exact slots_not_static hs' (cowns_static ha)
  · exact slots_not_static hs (hcell ▸ cowns_static ha')
  · cases b with
    | warehouseOp txm => exact hs
    | payment ww txm => exact hs
    | newOrder ww txm =>
      cases b' with
      | warehouseOp txm' => exact hs'
      | payment ww' txm' => exact hs'
      | newOrder ww' txm' =>
        have he := UInt64.toNat_inj.mp (orderSlots_inj hs hs')
        exact h ⟨(.district, txm.districtKey), others_subset_cowns List.mem_cons_self,
          he ▸ others_subset_cowns List.mem_cons_self⟩

end

end Doradd.Tpcc
