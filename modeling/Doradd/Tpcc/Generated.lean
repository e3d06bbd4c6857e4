import Mathlib.Data.List.Nodup
import Mathlib.Data.Set.Function
import Doradd.Lib.Counting
import Doradd.Tpcc.PrimaryKeys

/-!
# What generation leaves

* `mem_inserts`: the insertions, row by row;
* `inserts_fit`: no table is given more rows than it has room for;
* `generate_holds`: generation succeeds, and leaves every row in its slot;
* `lookups`: every lookup finds its row.
-/

namespace Doradd.Tpcc

open Lib

section

variable {sc : Scale} {draws : Draws}

/-! ## The loops visit the valid ids -/

theorem mem_idsUpTo {n i : UInt32} : i ∈ idsUpTo n ↔ Within n.toNat i := by
  unfold idsUpTo Within
  rw [List.mem_map]
  constructor
  · rintro ⟨k, hk, rfl⟩
    rw [List.mem_range] at hk
    have hn := n.toNat_lt
    rw [UInt32.toNat_ofNat_of_lt' (by simp only [UInt32.size]; omega)]
    omega
  · rintro ⟨h, h'⟩
    refine ⟨i.toNat - 1, List.mem_range.mpr (by omega), ?_⟩
    rw [Nat.sub_add_cancel h]
    exact UInt32.ofNat_toNat

theorem nodup_idsUpTo (n : UInt32) : (idsUpTo n).Nodup := by
  unfold idsUpTo
  refine (List.nodup_map_iff_inj_on List.nodup_range).mpr fun i hi j hj h => ?_
  rw [List.mem_range] at hi hj
  have hn := n.toNat_lt
  have he := congrArg UInt32.toNat h
  rw [UInt32.toNat_ofNat_of_lt' (by simp only [UInt32.size]; omega),
    UInt32.toNat_ofNat_of_lt' (by simp only [UInt32.size]; omega)] at he
  omega

theorem length_idsUpTo (n : UInt32) : (idsUpTo n).length = n.toNat := by
  unfold idsUpTo
  rw [List.length_map, List.length_range]

theorem mem_forDistricts {f : UInt32 → UInt32 → List Insert} {i : Insert} :
    i ∈ forDistricts sc f ↔ ∃ D : DistrictId sc, i ∈ f D.wId D.dId := by
  unfold forDistricts
  simp only [List.mem_flatMap, mem_idsUpTo]
  constructor
  · rintro ⟨w, hw, d, hd, hi⟩
    exact ⟨⟨w, d, hw, hd⟩, hi⟩
  · rintro ⟨D, hi⟩
    exact ⟨D.wId, D.valid_w, D.dId, D.valid_d, hi⟩

/-! ## The insertions one by one -/

/-- **The insertions are those of the rows of the primary keys.** -/
theorem mem_inserts {i : Insert} :
    i ∈ inserts sc draws ↔
      ∃ (t : TableId) (p : PrimaryKey sc draws t), i = ⟨t, p.insertKey, p.row⟩ := by
  unfold inserts
  simp only [List.mem_append]
  constructor
  · rintro (((((h | h) | h) | h) | h) | h)
    · obtain ⟨w, hw, rfl⟩ := List.mem_map.mp h
      exact ⟨_, .warehouse w (mem_idsUpTo.mp hw), rfl⟩
    · obtain ⟨D, h⟩ := mem_forDistricts.mp h
      exact ⟨_, .district D, List.mem_singleton.mp h⟩
    · obtain ⟨D, h⟩ := mem_forDistricts.mp h
      obtain ⟨c, hc, h⟩ := List.mem_flatMap.mp h
      simp only [List.mem_cons, List.not_mem_nil, or_false] at h
      rcases h with h | h
      · exact ⟨_, .customer D c (mem_idsUpTo.mp hc), h⟩
      · exact ⟨_, .history D c (mem_idsUpTo.mp hc), h⟩
    · obtain ⟨i, hi, rfl⟩ := List.mem_map.mp h
      exact ⟨_, .item i (mem_idsUpTo.mp hi), rfl⟩
    · obtain ⟨w, hw, h⟩ := List.mem_flatMap.mp h
      obtain ⟨i, hi, rfl⟩ := List.mem_map.mp h
      exact ⟨_, .stock w (mem_idsUpTo.mp hw) i (mem_idsUpTo.mp hi), rfl⟩
    · obtain ⟨D, h⟩ := mem_forDistricts.mp h
      obtain ⟨o, ho, h⟩ := List.mem_flatMap.mp h
      rcases List.mem_append.mp h with h | h
      · obtain ⟨n, hn, rfl⟩ := List.mem_map.mp h
        exact ⟨_, .orderLine D o (mem_idsUpTo.mp ho) n (mem_idsUpTo.mp hn), rfl⟩
      · exact ⟨_, .order D o (mem_idsUpTo.mp ho), List.mem_singleton.mp h⟩
  · rintro ⟨t, p, rfl⟩
    cases p with
    | warehouse w hw =>
      exact .inl (.inl (.inl (.inl (.inl (List.mem_map.mpr ⟨w, mem_idsUpTo.mpr hw, rfl⟩)))))
    | district D =>
      exact .inl (.inl (.inl (.inl (.inr
        (mem_forDistricts.mpr ⟨D, List.mem_singleton.mpr rfl⟩)))))
    | customer D c hc =>
      exact .inl (.inl (.inl (.inr (mem_forDistricts.mpr
        ⟨D, List.mem_flatMap.mpr ⟨c, mem_idsUpTo.mpr hc, List.mem_cons_self⟩⟩))))
    | history D c hc =>
      exact .inl (.inl (.inl (.inr (mem_forDistricts.mpr ⟨D, List.mem_flatMap.mpr
        ⟨c, mem_idsUpTo.mpr hc, List.mem_cons_of_mem _ List.mem_cons_self⟩⟩))))
    | item i hi =>
      have hmem : i ∈ idsUpTo numItems := mem_idsUpTo.mpr hi
      exact .inl (.inl (.inr (List.mem_map.mpr ⟨i, hmem, rfl⟩)))
    | stock w hw i hi =>
      have hmem : i ∈ idsUpTo numItems := mem_idsUpTo.mpr hi
      exact .inl (.inr (List.mem_flatMap.mpr
        ⟨w, mem_idsUpTo.mpr hw, List.mem_map.mpr ⟨i, hmem, rfl⟩⟩))
    | orderLine D o ho n hn =>
      exact .inr (mem_forDistricts.mpr ⟨D, List.mem_flatMap.mpr ⟨o, mem_idsUpTo.mpr ho,
        List.mem_append_left _ (List.mem_map.mpr ⟨n, mem_idsUpTo.mpr hn, rfl⟩)⟩⟩)
    | order D o ho =>
      exact .inr (mem_forDistricts.mpr ⟨D, List.mem_flatMap.mpr
        ⟨o, mem_idsUpTo.mpr ho, List.mem_append_right _ (List.mem_singleton.mpr rfl)⟩⟩)

/-! ## Counting -/

theorem countP_forDistricts_le {f : UInt32 → UInt32 → List Insert} {p : Insert → Bool} {c : Nat}
    (h : ∀ w d, (f w d).countP p ≤ c) :
    (forDistricts sc f).countP p ≤ sc.numWarehouses.toNat * (10 * c) := by
  have hD : ∀ w ∈ idsUpTo sc.numWarehouses,
      ((idsUpTo districtsPerWarehouse).flatMap fun d => f w d).countP p ≤ 10 * c := by
    intro w _
    have := countP_flatMap_le (l := idsUpTo districtsPerWarehouse) (f := fun d => f w d) (p := p)
      (c := c) fun d _ => h w d
    rwa [length_idsUpTo] at this
  have := countP_flatMap_le hD
  rwa [length_idsUpTo] at this

/-- One insertion into table `u` for every element of a list. -/
theorem countP_map_le {α : Type} {l : List α} {f : α → Insert} {u : TableId}
    (h : ∀ a, (f a).table = u) (t : TableId) :
    (l.map f).countP (fun i => i.table = t) ≤ l.length * if t = u then 1 else 0 := by
  rw [List.countP_map]
  split
  · rw [Nat.mul_one]
    exact List.countP_le_length
  · rename_i hne
    rw [Nat.mul_zero, Nat.le_zero, List.countP_eq_zero]
    intro a _ ha
    exact hne ((of_decide_eq_true ha).symm.trans (h a))

/-- An upper bound of the rows that the generator inserts into each table. -/
def generatedRows (W : Nat) : TableId → Nat
  | .warehouse => W
  | .district => W * 10
  | .customer => W * 30000
  | .orderLine => W * 450000
  | .stock => W * 100000
  | .order => W * 30000
  | .newOrder => 0
  | .item => 100000
  | .history => W * 30000

theorem countP_orderLines_le (draws : Draws) (w d o : UInt32) (t : TableId) :
    (generateOrderLines draws w d o).countP (fun i => i.table = t) ≤
      15 * if t = .orderLine then 1 else 0 := by
  have h := (draws.olCnt_range w d o).2
  rw [← length_idsUpTo] at h
  exact (countP_map_le (u := .orderLine) (fun _ => rfl) t).trans (Nat.mul_le_mul_right _ h)

theorem inserts_fit (sc : Scale) (draws : Draws) (t : TableId) :
    (inserts sc draws).countP (fun i => i.table = t) ≤
      generatedRows sc.numWarehouses.toNat t := by
  have hitems : (idsUpTo numItems).length = 100000 := length_idsUpTo numItems
  have hcustomers : (idsUpTo customersPerDistrict).length = 3000 := length_idsUpTo _
  have horders : (idsUpTo initialOrdersPerDistrict).length = 3000 := length_idsUpTo _
  have h₁ : (generateWarehouses sc).countP (fun i => i.table = t) ≤
      sc.numWarehouses.toNat * if t = .warehouse then 1 else 0 := by
    rw [← length_idsUpTo]
    exact countP_map_le (u := .warehouse) (fun _ => rfl) t
  have h₂ : (generateDistricts sc).countP (fun i => i.table = t) ≤
      sc.numWarehouses.toNat * (10 * if t = .district then 1 else 0) :=
    countP_forDistricts_le fun w d => by cases t <;> simp
  have h₃ : (generateCustomerAndHistory sc).countP (fun i => i.table = t) ≤
      sc.numWarehouses.toNat * (10 * (3000 * if t = .customer ∨ t = .history then 1 else 0)) :=
    countP_forDistricts_le fun w d => by
      rw [← hcustomers]
      exact countP_flatMap_le fun c _ => by cases t <;> simp
  have h₄ : (generateItems draws).countP (fun i => i.table = t) ≤
      100000 * if t = .item then 1 else 0 := by
    rw [← hitems]
    exact countP_map_le (u := .item) (fun _ => rfl) t
  have h₅ : (generateStocks sc draws).countP (fun i => i.table = t) ≤
      sc.numWarehouses.toNat * (100000 * if t = .stock then 1 else 0) := by
    rw [← length_idsUpTo, ← hitems]
    exact countP_flatMap_le fun w _ => countP_map_le (u := .stock) (fun _ => rfl) t
  have h₆ : (generateOrdersAndOrderLines sc draws).countP (fun i => i.table = t) ≤
      sc.numWarehouses.toNat *
        (10 * (3000 * ((15 * if t = .orderLine then 1 else 0) + if t = .order then 1 else 0))) :=
    countP_forDistricts_le fun w d => by
      rw [← horders]
      refine countP_flatMap_le fun o _ => ?_
      rw [List.countP_append]
      exact Nat.add_le_add (countP_orderLines_le draws w d o t) (by cases t <;> simp)
  unfold inserts
  simp only [List.countP_append]
  refine (Nat.add_le_add (Nat.add_le_add (Nat.add_le_add (Nat.add_le_add (Nat.add_le_add h₁ h₂) h₃)
    h₄) h₅) h₆).trans ?_
  cases t <;>
    simp only [generatedRows, reduceCtorEq, if_true, if_false, or_self, or_true, or_false] <;>
    omega

/-! ## The generated database -/

/-- A database that holds the generated rows, each in its slot, and no others. -/
structure Holds (sc : Scale) (draws : Draws) (db : Database) : Prop where
  row : ∀ {t : TableId} (p : PrimaryKey sc draws t), (db.table t).map p.index = some p.row
  only : ∀ {t : TableId} {k : Nat} {r : Row t}, (db.table t).map k = some r →
    ∃ p : PrimaryKey sc draws t, p.index = k ∧ p.row = r
  rows : ∀ t, (db.table t).cnt ≤ generatedRows sc.numWarehouses.toNat t

theorem generatedRows_le (W : Nat) (t : TableId) : generatedRows W t ≤ capacity W t := by
  cases t <;> simp only [generatedRows, capacity] <;> omega

/-- **Generation succeeds and leaves the generated rows.** -/
theorem generate_holds (sc : Scale) (draws : Draws) :
    ∃ db, generate sc draws = .ok db ∧ Holds sc draws db := by
  have hroom : ∀ t, (Database.empty.table t).cnt +
      (inserts sc draws).countP (fun i => i.table = t) ≤ capacity sc.numWarehouses.toNat t := by
    intro t
    have h₀ : (Database.empty.table t).cnt = 0 := rfl
    rw [h₀, Nat.zero_add]
    exact (inserts_fit sc draws t).trans (generatedRows_le _ t)
  have hkey : ∀ i ∈ inserts sc draws, i.key.toNat < capacity sc.numWarehouses.toNat i.table := by
    intro i hi
    obtain ⟨t, p, rfl⟩ := mem_inserts.mp hi
    exact lt_of_eq_of_lt p.insertKey_toNat p.index_lt
  obtain ⟨db, h⟩ := insertAll_ok hkey hroom
  have honly : ∀ {t : TableId} {k : Nat} {r : Row t}, (db.table t).map k = some r →
      ∃ p : PrimaryKey sc draws t, p.index = k ∧ p.row = r := by
    intro t k r hr
    rcases insertAll_origin h hr with hr | ⟨key, hmem, hk⟩
    · cases hr
    · obtain ⟨u, p, hp⟩ := mem_inserts.mp hmem
      cases hp
      exact ⟨p, p.insertKey_toNat.symm.trans hk, rfl⟩
  refine ⟨db, h, ?_, honly, ?_⟩
  · intro t p
    have hfill := insertAll_filled h (mem_inserts.mpr ⟨t, p, rfl⟩)
    rw [p.insertKey_toNat] at hfill
    obtain ⟨r, hr⟩ := Option.isSome_iff_exists.mp hfill
    obtain ⟨q, hq, hrow⟩ := honly hr
    rw [hr, ← hrow, PrimaryKey.index_inj hq]
  · intro t
    rw [insertAll_cnt h t]
    exact (Nat.zero_add _).trans_le (inserts_fit sc draws t)

/-- The start of every run. -/
structure Generated (sc : Scale) (db : Database) : Prop where
  populated : db.Populated sc
  rows : ∀ t, (db.table t).cnt ≤ generatedRows sc.numWarehouses.toNat t
  next : ∀ k d, (db.table .district).map k = some d → d.dNextOId = 3001
  noNewOrders : ∀ k, (db.table .newOrder).map k = none
  orders : ∀ (D : DistrictId sc) (o : UInt32), Within 3000 o →
    ∃ r, (db.table .order).map (D.index * 6840 + (o.toNat - 1)) = some r ∧
      r.oId = o.toUInt64 ∧ r.oDId = D.dId ∧ r.oWId = D.wId

theorem Holds.generated {db : Database} (h : Holds sc draws db) : Generated sc db where
  populated := by
    intro t ht k hk
    obtain ⟨p, rfl⟩ := @PrimaryKey.exists_index sc draws t ht _ hk
    rw [h.row p]
    rfl
  rows := h.rows
  next := by
    intro k d hd
    obtain ⟨p, -, rfl⟩ := h.only hd
    cases p with
    | district D => rfl
  noNewOrders := by
    intro k
    cases hk : (db.table .newOrder).map k with
    | none => rfl
    | some r =>
      obtain ⟨p, -, -⟩ := h.only hk
      cases p
  orders := fun D o ho => ⟨_, h.row (.order D o ho), rfl, rfl, rfl⟩

theorem generate_ok (sc : Scale) (draws : Draws) :
    ∃ db, generate sc draws = .ok db ∧ Generated sc db := by
  obtain ⟨db, hdb, h⟩ := generate_holds sc draws
  exact ⟨db, hdb, h.generated⟩

theorem Holds.readRow {db : Database} (h : Holds sc draws db) {t : TableId}
    (p : PrimaryKey sc draws t) : db.readRow sc t p.lookupKey = .ok p.row := by
  rw [Database.readRow_ok_iff, p.lookupKey_toNat]
  exact ⟨lt_tsize (lt_of_eq_of_lt p.lookupKey_toNat p.index_lt), h.row p⟩

end

/-- **Every lookup finds its row.**  Generation goes through; the static keys map
the primary keys of a table onto its slots, one to one, if the generator alone
fills it; and every generated row, orders and their lines included, is found
under its key. -/
theorem lookups (sc : Scale) (draws : Draws) :
    ∃ db, generate sc draws = .ok db ∧
      (∀ t : TableId, t.Static →
        Set.BijOn (fun p : PrimaryKey sc draws t => p.lookupKey) Set.univ { k | k < tsize sc t }) ∧
      ∀ (t : TableId) (p : PrimaryKey sc draws t), p.insertKey = p.lookupKey ∧
        p.lookupKey < tsize sc t ∧ db.readRow sc t p.lookupKey = .ok p.row := by
  obtain ⟨db, hdb, h⟩ := generate_holds sc draws
  refine ⟨db, hdb, fun t ht => ⟨?_, ?_, ?_⟩, fun t p => ⟨p.insertKey_eq, ?_, h.readRow p⟩⟩
  · intro p _
    exact (Database.readRow_ok_iff.mp (h.readRow p)).1
  · intro p _ q _ hpq
    have he := congrArg UInt64.toNat hpq
    simp only [PrimaryKey.lookupKey_toNat] at he
    exact PrimaryKey.index_inj he
  · intro k hk
    rw [Set.mem_ofPred_eq, UInt64.lt_iff_toNat_lt, tsize_toNat] at hk
    obtain ⟨p, hp⟩ := @PrimaryKey.exists_index sc draws t ht _ hk
    exact ⟨p, Set.mem_univ p, UInt64.toNat_inj.mp (p.lookupKey_toNat.trans hp)⟩
  · exact (Database.readRow_ok_iff.mp (h.readRow p)).1

end Doradd.Tpcc
