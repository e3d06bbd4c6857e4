import Mathlib.Data.List.Perm.Basic
import Doradd.Tpcc.GenLog
import Doradd.Tpcc.Progress

/-!
# Generated records

The ids that the generator draws are in the ranges that the key arithmetic needs, and
they survive the log.

* `Valid.resolves`: a valid record of distinct items is resolved to distinct rows
  that exist;
* `NewOrder.valid`, `Payment.valid`: generated records are valid;
* `generated_records_resolve`: what `prepare_cowns` makes of them.
-/

namespace Doradd.Tpcc

open Lib

namespace TPCCTransactionMarshalled

/-- `prepare_cowns`: the rows that it looks up, in order, for up to fifteen items. -/
def prepareCowns (txm : TPCCTransactionMarshalled) : List Cown :=
  if txm.txnType = 0 then
    [(.warehouse, txm.warehouseKey), (.district, txm.districtKey), (.customer, txm.customerKey)] ++
      (txm.lines.map (fun k => (.stock, txm.stockKey k)) ++
        txm.lines.map fun k => (.item, txm.itemKey k))
  else if txm.txnType = 1 then
    [(.warehouse, txm.warehouseKey), (.district, txm.districtKey), (.customer, txm.customerKey)]
  else []

/-- The rows exist and are distinct; those that each behaviour acquires are among them, and
distinct too. -/
structure Resolves (sc : Scale) (txm : TPCCTransactionMarshalled) : Prop where
  inside : ∀ a ∈ txm.prepareCowns, a.2 < tsize sc a.1
  distinct : txm.prepareCowns.Nodup
  acquired : ∀ split, ∀ b ∈ spawn split txm, b.cowns.Nodup ∧ b.cowns ⊆ txm.prepareCowns

section

variable {sc : Scale} {txm : TPCCTransactionMarshalled}

/-! ## Distinct keys -/

/-- A key that tells items apart tells the lines of distinct items apart. -/
theorem keys_nodup {key : Fin 15 → UInt64}
    (hd : (txm.lines.map fun k => (txm.iId k).toNat).Nodup)
    (hkey : ∀ j ∈ txm.lines, ∀ k ∈ txm.lines, key j = key k →
      (txm.iId j).toNat = (txm.iId k).toNat) : (txm.lines.map key).Nodup :=
  (List.Nodup.of_map _ hd).map_on fun j hj k hk he =>
    List.inj_on_of_nodup_map hd hj hk (hkey j hj k hk he)

theorem ItemsValid.itemKeys_nodup (h : txm.ItemsValid sc)
    (hd : (txm.lines.map fun k => (txm.iId k).toNat).Nodup) :
    (txm.lines.map txm.itemKey).Nodup := by
  refine keys_nodup hd fun j hj k hk he => ?_
  obtain ⟨hij, -⟩ := h j hj
  obtain ⟨hik, -⟩ := h k hk
  have he' : (txm.itemKey j).toNat = (txm.itemKey k).toNat := congrArg UInt64.toNat he
  rw [itemKey, itemKey, itemKey_toNat hij.1, itemKey_toNat hik.1] at he'
  rw [hij.eq_of_sub_eq hik he']

/-- Stock keys differ in the place of the item, whatever the warehouses are. -/
theorem ItemsValid.stockKeys_nodup (h : txm.ItemsValid sc)
    (hd : (txm.lines.map fun k => (txm.iId k).toNat).Nodup) :
    (txm.lines.map txm.stockKey).Nodup := by
  refine keys_nodup hd fun j hj k hk he => ?_
  obtain ⟨hij, hwj⟩ := h j hj
  obtain ⟨hik, hwk⟩ := h k hk
  have he' : (txm.stockKey j).toNat = (txm.stockKey k).toNat := congrArg UInt64.toNat he
  rw [stockKey, stockKey, stockKey_toNat hwj hij, stockKey_toNat hwk hik] at he'
  rw [(hij.digit_inj hik (Nat.le_refl 100000) he').2]

/-! ## The rows of a record -/

theorem Valid.inside (h : txm.Valid sc) : ∀ a ∈ txm.prepareCowns, a.2 < tsize sc a.1 := by
  have hkeys : ∀ a ∈ [((.warehouse, txm.warehouseKey) : Cown), (.district, txm.districtKey),
      (.customer, txm.customerKey)], a.2 < tsize sc a.1 := by
    intro a ha
    simp only [List.mem_cons, List.not_mem_nil, or_false] at ha
    rcases ha with rfl | rfl | rfl
    · exact lt_tsize h.keys.warehouseKey_lt
    · exact lt_tsize h.keys.districtKey_lt
    · exact lt_tsize h.keys.customerKey_lt
  intro a ha
  unfold prepareCowns at ha
  rcases h.type with ht | ht
  · rw [if_pos ht, List.mem_append, List.mem_append] at ha
    rcases ha with ha | ha | ha
    · exact hkeys a ha
    · obtain ⟨k, hk, rfl⟩ := List.mem_map.mp ha
      exact lt_tsize ((h.items ht).stockKey_lt hk)
    · obtain ⟨k, hk, rfl⟩ := List.mem_map.mp ha
      exact lt_tsize ((h.items ht).itemKey_lt hk)
  · rw [if_neg (by rw [ht]; decide), if_pos ht] at ha
    exact hkeys a ha

theorem prepareCowns_nodup
    (hs : txm.txnType = 0 → (txm.lines.map txm.stockKey).Nodup)
    (hi : txm.txnType = 0 → (txm.lines.map txm.itemKey).Nodup) : txm.prepareCowns.Nodup := by
  have htable : ∀ (t : TableId) {key : Fin 15 → UInt64}, (txm.lines.map key).Nodup →
      (txm.lines.map fun k => ((t, key k) : Cown)).Nodup := by
    intro t key hkey
    have hmap : (txm.lines.map fun k => ((t, key k) : Cown)) =
        (txm.lines.map key).map (Prod.mk t) := List.map_map.symm
    rw [hmap]
    exact hkey.map (Prod.mk_right_injective t)
  unfold prepareCowns
  split
  · rename_i ht
    refine List.nodup_append.mpr ⟨by simp, ?_, ?_⟩
    · refine List.nodup_append.mpr ⟨htable .stock (hs ht), htable .item (hi ht), ?_⟩
      intro a ha b hb
      obtain ⟨j, -, rfl⟩ := List.mem_map.mp ha
      obtain ⟨k, -, rfl⟩ := List.mem_map.mp hb
      simp
    · intro a ha b hb
      simp only [List.mem_append, List.mem_map] at hb
      rcases hb with ⟨k, -, rfl⟩ | ⟨k, -, rfl⟩ <;> grind
  · split
    · simp
    · exact List.nodup_nil

/-- A `when` of a NewOrder acquires the rows in another order. -/
theorem newOrder_cowns_perm (ht : txm.txnType = 0) :
    txm.prepareCowns.Perm (Behaviour.newOrder true txm).cowns := by
  have hlines : ((txm.lines.map fun k => ((.stock, txm.stockKey k) : Cown)) ++
      txm.lines.map fun k => ((.item, txm.itemKey k) : Cown)).Perm
        (txm.lines.flatMap fun k => [(.stock, txm.stockKey k), (.item, txm.itemKey k)]) := by
    rw [List.map_eq_flatMap (l := txm.lines) (f := fun k => ((.item, txm.itemKey k) : Cown))]
    exact List.map_append_flatMap_perm _ _ _
  unfold prepareCowns
  rw [if_pos ht]
  exact ((hlines.cons _).cons _).cons _

theorem payment_cowns (ht : txm.txnType = 1) :
    txm.prepareCowns = (Behaviour.payment true txm).cowns := by
  unfold prepareCowns
  rw [if_neg (by rw [ht]; decide), if_pos ht]
  rfl

/-- Either way of spawning acquires rows that were looked up, each once. -/
theorem spawn_cowns_subperm {warehouseSplit : Bool} {b : Behaviour}
    (hb : b ∈ spawn warehouseSplit txm) : b.cowns.Subperm txm.prepareCowns := by
  have hwhen : ∀ c : Bool → TPCCTransactionMarshalled → Behaviour,
      (c true txm).cowns = (.warehouse, txm.warehouseKey) :: (c false txm).cowns →
        (c true txm).cowns.Subperm txm.prepareCowns →
          b ∈ (if warehouseSplit then [.warehouseOp txm, c false txm] else [c true txm]) →
            b.cowns.Subperm txm.prepareCowns := by
    intro c hcowns hrows hb
    split at hb
    · rw [hcowns] at hrows
      simp only [List.mem_cons, List.not_mem_nil, or_false] at hb
      rcases hb with rfl | rfl
      · exact (List.singleton_sublist.mpr List.mem_cons_self).subperm.trans hrows
      · exact (List.sublist_cons_self _ _).subperm.trans hrows
    · cases List.mem_singleton.mp hb
      exact hrows
  unfold spawn at hb
  by_cases h₀ : txm.txnType = 0
  · rw [if_pos h₀] at hb
    split at hb
    · exact hwhen .newOrder rfl (newOrder_cowns_perm h₀).symm.subperm hb
    · cases hb
  · rw [if_neg h₀] at hb
    split at hb
    · rename_i h₁
      exact hwhen .payment rfl (payment_cowns h₁ ▸ List.Subperm.refl _) hb
    · cases hb

/-- **A valid record of distinct items.** -/
theorem Valid.resolves (h : txm.Valid sc)
    (hd : txm.txnType = 0 → (txm.lines.map fun k => (txm.iId k).toNat).Nodup) :
    txm.Resolves sc := by
  have hdistinct : txm.prepareCowns.Nodup :=
    prepareCowns_nodup (fun ht => (h.items ht).stockKeys_nodup (hd ht))
      fun ht => (h.items ht).itemKeys_nodup (hd ht)
  refine ⟨h.inside, hdistinct, fun _ _ hb => ?_⟩
  obtain ⟨rows, hperm, hsub⟩ := spawn_cowns_subperm hb
  exact ⟨hperm.nodup_iff.mp (hdistinct.sublist hsub), (spawn_cowns_subperm hb).subset⟩

end

end TPCCTransactionMarshalled

namespace GenLog

variable {sc : Scale} {sp : ScaleParameters} {now type : Nat} {params : Params}
  {txm : TPCCTransactionMarshalled}

/-! ## Generated parameters fit -/

theorem UpTo.lt {n v : Nat} (h : UpTo n v) (hn : n < 2 ^ 32) : v < 2 ^ 32 :=
  Nat.lt_of_le_of_lt h.2 hn

theorem Params.NewOrder.fits (h : params.NewOrder sp now) (hw : sp.warehouses < 2 ^ 32)
    (hn : now < 2 ^ 32) : params.Fits 0 := by
  have hd : sp.districtsPerWarehouse < 2 ^ 32 :=
    Nat.lt_of_le_of_lt sp.districts_range.2 (by decide)
  have hc : sp.customersPerDistrict < 2 ^ 32 := Nat.lt_of_le_of_lt sp.customers_range.2 (by decide)
  have hi : sp.items < 2 ^ 32 := Nat.lt_of_le_of_lt sp.items_range.2 (by decide)
  have hcount : params.olCnt < 2 ^ 32 := Nat.lt_of_le_of_lt h.count.2 (by decide)
  have htime : params.oEntryD < 2 ^ 32 := h.time ▸ hn
  obtain ⟨ha, hcw, hcd, hh⟩ := h.ignored
  refine ⟨.inl rfl, ?_, ?_, ?_, ?_⟩
  · exact h.items.ids.trans_le h.count.2
  · exact h.items.wIds.trans h.items.ids.symm
  · exact h.items.qtys.trans h.items.ids.symm
  · simp only [Params.values, List.forall_mem_append, List.forall_mem_cons, List.not_mem_nil,
      false_imp_iff, implies_true, and_true, ha, hcw, hcd, hh]
    exact ⟨⟨⟨⟨h.keys.w.lt hw, h.keys.d.lt hd, h.keys.c.lt hc, hcount, htime, by decide⟩,
      fun v hv => (h.items.ids_range v hv).lt hi⟩, fun v hv => (h.items.wIds_range v hv).lt hw⟩,
      fun v hv => (h.items.qtys_range v hv).lt (by decide)⟩

theorem Params.Payment.fits (h : params.Payment sp now) (hw : sp.warehouses < 2 ^ 32)
    (hn : now < 2 ^ 32) : params.Fits 1 := by
  have hd : sp.districtsPerWarehouse < 2 ^ 32 :=
    Nat.lt_of_le_of_lt sp.districts_range.2 (by decide)
  have hc : sp.customersPerDistrict < 2 ^ 32 := Nat.lt_of_le_of_lt sp.customers_range.2 (by decide)
  have hamount : params.hAmount < 2 ^ 32 := Nat.lt_of_le_of_lt h.amount (by decide)
  have htime : params.hDate < 2 ^ 32 := h.time ▸ hn
  obtain ⟨ho, he, hi, hs, hq⟩ := h.ignored
  refine ⟨.inr rfl, ?_, ?_, ?_, ?_⟩
  · rw [hi]
    decide
  · rw [hs, hi]
  · rw [hq, hi]
  · simp only [Params.values, List.forall_mem_append, List.forall_mem_cons, List.not_mem_nil,
      false_imp_iff, implies_true, and_true, ho, he, hi, hs, hq]
    exact ⟨h.keys.w.lt hw, h.keys.d.lt hd, h.keys.c.lt hc, by decide, by decide, hamount,
      h.cW.lt hw, h.cD.lt hd, htime⟩

/-- A record that was written shows what was drawn. -/
theorem Params.NewOrder.consumed (h : params.NewOrder sp now) (hw : sp.warehouses < 2 ^ 32)
    {record : List UInt8} (hr : generateStruct 0 params = some record) :
    Consumed 0 params (.read record 0) := by
  obtain ⟨-, hwords, rfl⟩ := generateStruct_eq_some.mp hr
  have hn : now < 2 ^ 32 := h.time ▸ hwords _ (by simp [words, headWords])
  exact (h.fits hw hn).consumed

theorem Params.Payment.consumed (h : params.Payment sp now) (hw : sp.warehouses < 2 ^ 32)
    {record : List UInt8} (hr : generateStruct 1 params = some record) :
    Consumed 1 params (.read record 0) := by
  obtain ⟨-, hwords, rfl⟩ := generateStruct_eq_some.mp hr
  have hn : now < 2 ^ 32 := h.time ▸ hwords _ (by simp [words, tailWords])
  exact (h.fits hw hn).consumed

/-! ## Generated records are valid -/

theorem Consumed.keysValid (h : Consumed type params txm) (hk : params.Keys sp)
    (hw : sp.warehouses ≤ sc.numWarehouses.toNat) : txm.KeysValid sc := by
  constructor
  · rw [Within, h.wId]
    exact ⟨hk.w.1, hk.w.2.trans hw⟩
  · rw [Within, h.dId]
    exact ⟨hk.d.1, hk.d.2.trans sp.districts_range.2⟩
  · rw [Within, h.cId]
    exact ⟨hk.c.1, hk.c.2.trans sp.customers_range.2⟩

theorem Consumed.itemsValid (h : Consumed type params txm) {n : Nat}
    (hi : Items.Inv sp n ⟨params.iIds, params.iWIds, params.iQtys⟩)
    (hw : sp.warehouses ≤ sc.numWarehouses.toNat) : txm.ItemsValid sc := by
  intro k hk
  have hid : (txm.iId k).toNat ∈ params.iIds := h.iIds ▸ List.mem_map_of_mem hk
  have hwid : (txm.iWId k).toNat ∈ params.iWIds := h.iWIds ▸ List.mem_map_of_mem hk
  obtain ⟨hlow, hhigh⟩ := hi.ids_range _ hid
  obtain ⟨hwlow, hwhigh⟩ := hi.wIds_range _ hwid
  exact ⟨⟨hlow, hhigh.trans sp.items_range.2⟩, hwlow, hwhigh.trans hw⟩

theorem Consumed.type_eq {n : UInt8} (h : Consumed n.toNat params txm) : txm.txnType = n :=
  UInt8.toNat_inj.mp h.txnType

theorem Params.NewOrder.valid (h : params.NewOrder sp now) (hc : Consumed 0 params txm)
    (hw : sp.warehouses ≤ sc.numWarehouses.toNat) :
    txm.Valid sc ∧ 5 ≤ txm.numberOfItems ∧ txm.numberOfItems ≤ 15 := by
  have hcount : 5 ≤ txm.numberOfItems ∧ txm.numberOfItems ≤ 15 := by
    rw [UInt32.le_iff_toNat_le, UInt32.le_iff_toNat_le, hc.numberOfItems, h.items.ids]
    exact h.count
  have hone : 1 ≤ txm.numberOfItems := UInt32.le_trans (by decide) hcount.1
  exact ⟨⟨.inl (hc.type_eq (n := 0)), hc.keysValid h.keys hw, fun _ => ⟨hone, hcount.2⟩,
    fun _ => hc.itemsValid h.items hw⟩, hcount⟩

theorem Params.Payment.valid (h : params.Payment sp now) (hc : Consumed 1 params txm)
    (hw : sp.warehouses ≤ sc.numWarehouses.toNat) : txm.Valid sc := by
  have ht : txm.txnType = 1 := hc.type_eq (n := 1)
  have hne : txm.txnType ≠ 0 := by
    rw [ht]
    decide
  exact ⟨.inr ht, hc.keysValid h.keys hw, fun h₀ => absurd h₀ hne, fun h₀ => absurd h₀ hne⟩

/-! ## Generated records resolve -/

/-- A NewOrder of five to fifteen items, in distinct rows that exist. -/
structure NewOrderResolves (sc : Scale) (txm : TPCCTransactionMarshalled) : Prop where
  type : txm.txnType = 0
  rows : txm.Resolves sc
  count : 5 ≤ txm.numberOfItems ∧ txm.numberOfItems ≤ 15
  stocks : (txm.lines.map txm.stockKey).Nodup
  items : (txm.lines.map txm.itemKey).Nodup

/-- A Payment, in distinct rows that exist. -/
structure PaymentResolves (sc : Scale) (txm : TPCCTransactionMarshalled) : Prop where
  type : txm.txnType = 1
  rows : txm.Resolves sc

theorem Params.NewOrder.resolves (h : params.NewOrder sp now) (hc : Consumed 0 params txm)
    (hw : sp.warehouses ≤ sc.numWarehouses.toNat) : NewOrderResolves sc txm := by
  obtain ⟨hv, hcount⟩ := h.valid hc hw
  have ht : txm.txnType = 0 := hc.type_eq (n := 0)
  have hd : (txm.lines.map fun k => (txm.iId k).toNat).Nodup := by
    rw [hc.iIds]
    exact h.items.distinct
  exact ⟨ht, hv.resolves fun _ => hd, hcount, (hv.items ht).stockKeys_nodup hd,
    (hv.items ht).itemKeys_nodup hd⟩

theorem Params.Payment.resolves (h : params.Payment sp now) (hc : Consumed 1 params txm)
    (hw : sp.warehouses ≤ sc.numWarehouses.toNat) : PaymentResolves sc txm := by
  have ht : txm.txnType = 1 := hc.type_eq (n := 1)
  refine ⟨ht, (h.valid hc hw).resolves fun h₀ => absurd (h₀.symm.trans ht) (by decide)⟩

/-- **Whatever is drawn, a record is resolved to distinct rows that exist.**  There is
a record until the seconds take more than 32 bits. -/
theorem generated_records_resolve (sc : Scale) {warehouses : Nat} {scaled : Nat → Nat}
    (hw : warehouses ≤ sc.numWarehouses.toNat) {sp : ScaleParameters}
    (hsp : makeWithScaleFactor warehouses scaled = some sp) (nu : NURandC) (now : Nat) :
    (∀ draws rest params, generateNewOrderParams sp nu now draws = some (params, rest) →
      (now < 2 ^ 32 → (generateStruct 0 params).isSome = true) ∧
        ∀ record, generateStruct 0 params = some record →
          NewOrderResolves sc (.read record 0)) ∧
    ∀ draws rest params, generatePaymentParams sp nu now draws = some (params, rest) →
      (now < 2 ^ 32 → (generateStruct 1 params).isSome = true) ∧
        ∀ record, generateStruct 1 params = some record → PaymentResolves sc (.read record 0) := by
  rw [← makeWithScaleFactor_warehouses hsp] at hw
  have hlt : sp.warehouses < 2 ^ 32 := Nat.lt_of_le_of_lt hw sc.numWarehouses.toNat_lt
  constructor
  · intro draws rest params hdrawn
    have hp := ensures_newOrder sp nu now draws params rest hdrawn
    refine ⟨fun hn => ?_, fun record hr => ?_⟩
    · rw [(hp.fits hlt hn).generateStruct]
      rfl
    · exact hp.resolves (hp.consumed hlt hr) hw
  · intro draws rest params hdrawn
    have hp := ensures_payment sp nu now draws params rest hdrawn
    refine ⟨fun hn => ?_, fun record hr => ?_⟩
    · rw [(hp.fits hlt hn).generateStruct]
      rfl
    · exact hp.resolves (hp.consumed hlt hr) hw

theorem exampleOrder_drawn : generateNewOrderParams exampleScale exampleNURand 1700000000
    [1, 1, 0, 1, 5, 0, 1, 2, 7, 0, 2, 2, 7, 0, 2, 0, 3, 2, 7, 0, 4, 2, 7, 0, 5, 2, 7] =
      some (exampleOrder, []) := rfl

theorem generated_records_resolve_example :
    NewOrderResolves Scale.one (.read (structBytes 0 exampleOrder) 0) ∧
      PaymentResolves Scale.one (.read (structBytes 1 examplePaid) 0) := by
  have hscale : makeWithScaleFactor 1 (fun n => n) = some exampleScale := rfl
  obtain ⟨horder, hpaid⟩ := generated_records_resolve Scale.one (by decide) hscale exampleNURand
    1700000000
  exact ⟨(horder _ _ _ exampleOrder_drawn).2 _ exampleOrder_fits.generateStruct,
    (hpaid _ _ _ examplePaid_drawn).2 _ examplePaid_fits.generateStruct⟩

end GenLog

end Doradd.Tpcc
