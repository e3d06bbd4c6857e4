import Mathlib.Data.List.GetD
import Doradd.Tpcc.Generated

/-!
# The customers of the generated orders

The orders of a district take their customers from a shuffle of ids.  The ids that are
shuffled are one more than there are customers, and one more than there are orders.

* `orders_distinct`: the orders of a district belong to different ids;
* `orders_belong_iff`: all of them are ids of customers if the shuffle puts the one that
  is not where no order takes it.
-/

namespace Doradd.Tpcc

open Lib

/-! ## tpcc/rand.hpp -/

/-- The vector of `make_permutation`: both bounds are among the numbers. -/
def permutationIds (min max : Nat) : List UInt32 :=
  (List.range (max + 1 - min)).map fun i => UInt32.ofNat (min + i)

/-- Any order of the numbers may be returned. -/
def MakePermutation (min max : Nat) (ret : List UInt32) : Prop := ret.Perm (permutationIds min max)

/-! ## tpcc/generator.hpp -/

/-- What the calls of `make_permutation` return, district by district. -/
structure CustomerIds where
  customerIdPermutation : UInt32 → UInt32 → List UInt32
  shuffled : ∀ w d, MakePermutation 1 (customersPerDistrict.toNat + 1) (customerIdPermutation w d)

/-- `_order.o_c_id = customer_id_permutation[o_id - 1]` -/
def Draws.withCustomers (draws : Draws) (ids : CustomerIds) : Draws :=
  { draws with customerId := fun w d o => (ids.customerIdPermutation w d).getD (o - 1).toNat 0 }

/-! ## Orders and their customers -/

section

variable {sc : Scale} (db : Database) (D : DistrictId sc)

/-- The customer of an order, if there is such an order. -/
def orderCustomer (o : UInt32) : Option UInt32 :=
  ((db.table .order).map (Order.staticHashKey D.wId D.dId o).toNat).bind Order.oCId

/-- A customer of the district. -/
def IsCustomer (id : Option UInt32) : Prop :=
  ∃ k c, (db.table .customer).map k = some c ∧ c.cWId = D.wId ∧ c.cDId = D.dId ∧ id = some c.cId

/-- The initial orders belong to different customers of their district. -/
structure OrdersBelong : Prop where
  distinct : ((idsUpTo initialOrdersPerDistrict).map (orderCustomer db D)).Nodup
  existing : ∀ o ∈ idsUpTo initialOrdersPerDistrict, IsCustomer db D (orderCustomer db D o)

end

section

variable {sc : Scale} {draws : Draws} {db : Database}

theorem Holds.orderCustomer_eq (h : Holds sc draws db) (D : DistrictId sc) {o : UInt32}
    (ho : Within 3000 o) :
    orderCustomer db D o = some (draws.customerId D.wId D.dId o) := by
  have hkey : (Order.staticHashKey D.wId D.dId o).toNat = _ :=
    @PrimaryKey.lookupKey_toNat sc draws _ (.order D o ho)
  rw [orderCustomer, hkey, h.row (.order D o ho)]
  rfl

/-- The customers of a district have the ids up to 3000. -/
theorem Holds.isCustomer (h : Holds sc draws db) (D : DistrictId sc) {id : UInt32} :
    IsCustomer db D (some id) ↔ Within 3000 id := by
  constructor
  · rintro ⟨k, c, hc, hw, hd, hid⟩
    obtain ⟨p, -, rfl⟩ := h.only hc
    cases p with
    | customer D' c' hc' =>
      cases hid
      exact hc'
  · intro hid
    exact ⟨_, _, h.row (.customer D id hid), rfl, rfl, rfl⟩

end

/-! ## Shuffles -/

theorem permutationIds_succ (max : Nat) :
    permutationIds 1 (max + 1) = permutationIds 1 max ++ [UInt32.ofNat (1 + max)] := by
  simp only [permutationIds, Nat.add_sub_cancel, List.range_succ, List.map_append, List.map_cons,
    List.map_nil]

/-- The ids of `n` customers, or of `n` orders. -/
theorem permutationIds_one (n : UInt32) : permutationIds 1 n.toNat = idsUpTo n :=
  List.map_congr_left fun i _ => congrArg UInt32.ofNat (Nat.add_comm 1 i)

/-- The one element that is not among the first `n` of `n + 1` is the last. -/
theorem not_mem_take_iff {α : Type} {l : List α} {n : Nat} {a : α} (hn : l.Nodup)
    (hlen : l.length = n + 1) (ha : a ∈ l) : a ∉ l.take n ↔ l[n]? = some a := by
  have hlast : l[n]? = some (l.get ⟨n, by omega⟩) := List.getElem?_eq_getElem (by omega)
  have hsplit : l = l.take n ++ [l.get ⟨n, by omega⟩] := by
    rw [List.get_eq_getElem, ← List.take_succ_eq_append_getElem (by omega), ← hlen,
      List.take_length]
  rw [hlast, Option.some_inj]
  constructor
  · intro hnot
    rw [hsplit] at ha
    rcases List.mem_append.mp ha with h | h
    · exact absurd h hnot
    · exact (List.mem_singleton.mp h).symm
  · rintro rfl hmem
    rw [hsplit] at hn
    exact (List.nodup_append.mp hn).2.2 _ hmem _ (List.mem_singleton_self _) rfl

/-- The first entries of a list, read one by one. -/
theorem map_getD_range {α : Type} (l : List α) (d : α) {n : Nat} (hn : n ≤ l.length) :
    (List.range n).map (fun i => l.getD i d) = l.take n := by
  apply List.ext_getElem?
  intro i
  rcases Nat.lt_or_ge i n with hi | hi
  · rw [List.getElem?_map, List.getElem?_range hi, List.getElem?_take_of_lt hi, Option.map_some,
      List.getD_eq_getElem _ _ (by omega), List.getElem?_eq_getElem (by omega)]
  · rw [List.getElem?_eq_none (by simpa using hi), List.getElem?_eq_none]
    rw [List.length_take]
    omega

namespace CustomerIds

variable (ids : CustomerIds) (w d : UInt32)

/-- The numbers that are shuffled are the ids up to 3001. -/
theorem perm : (ids.customerIdPermutation w d).Perm (idsUpTo 3001) := by
  rw [← permutationIds_one]
  exact ids.shuffled w d

theorem length_eq : (ids.customerIdPermutation w d).length = 3001 :=
  (ids.perm w d).length_eq.trans (length_idsUpTo 3001)

theorem nodup : (ids.customerIdPermutation w d).Nodup :=
  (ids.perm w d).nodup_iff.mpr (nodup_idsUpTo 3001)

theorem mem_iff {id : UInt32} : id ∈ ids.customerIdPermutation w d ↔ Within 3001 id :=
  (ids.perm w d).mem_iff.trans mem_idsUpTo

/-- The customers that the orders take. -/
theorem taken (draws : Draws) :
    (idsUpTo initialOrdersPerDistrict).map ((draws.withCustomers ids).customerId w d) =
      (ids.customerIdPermutation w d).take 3000 := by
  have hle : 3000 ≤ (ids.customerIdPermutation w d).length := by
    rw [ids.length_eq]
    decide
  rw [← map_getD_range _ 0 hle, idsUpTo, List.map_map]
  apply List.map_congr_left
  intro i hi
  rw [List.mem_range] at hi
  have hi' : i < 3000 := hi
  have hpred : (UInt32.ofNat (i + 1) - 1).toNat = i := by
    have hof : (UInt32.ofNat (i + 1)).toNat = i + 1 :=
      UInt32.toNat_ofNat_of_lt' (by simp only [UInt32.size]; omega)
    rw [toNat_sub_one (by omega), hof, Nat.add_sub_cancel]
  simp only [Function.comp_apply, Draws.withCustomers, hpred]

/-- No order takes the id that is not a customer's if it comes last. -/
theorem taken_within :
    (∀ id ∈ (ids.customerIdPermutation w d).take 3000, Within 3000 id) ↔
      (ids.customerIdPermutation w d)[3000]? = some 3001 := by
  have hextra : (3001 : UInt32) ∈ ids.customerIdPermutation w d := (ids.mem_iff w d).mpr (by decide)
  rw [← not_mem_take_iff (ids.nodup w d) (ids.length_eq w d) hextra]
  constructor
  · intro hall hmem
    exact absurd (hall 3001 hmem) (by decide)
  · intro hnot id hid
    obtain ⟨h, h'⟩ := (ids.mem_iff w d).mp (List.mem_of_mem_take hid)
    refine ⟨h, ?_⟩
    have hne : id.toNat ≠ 3001 := by
      intro he
      have : id = 3001 := UInt32.toNat_inj.mp he
      exact hnot (this ▸ hid)
    omega

end CustomerIds

/-! ## The generated orders -/

section

variable {sc : Scale} {draws : Draws} {ids : CustomerIds} {db : Database}

theorem Holds.orderCustomers (h : Holds sc (draws.withCustomers ids) db) (D : DistrictId sc) :
    (idsUpTo initialOrdersPerDistrict).map (orderCustomer db D) =
      ((ids.customerIdPermutation D.wId D.dId).take 3000).map some := by
  rw [← ids.taken D.wId D.dId draws, List.map_map]
  apply List.map_congr_left
  intro o ho
  exact h.orderCustomer_eq D (mem_idsUpTo.mp ho)

/-- **The orders of a district belong to different ids.** -/
theorem Holds.orders_distinct (h : Holds sc (draws.withCustomers ids) db) (D : DistrictId sc) :
    ((idsUpTo initialOrdersPerDistrict).map (orderCustomer db D)).Nodup := by
  rw [h.orderCustomers D]
  exact ((ids.nodup D.wId D.dId).sublist (List.take_sublist _ _)).map (Option.some_injective _)

theorem Holds.orders_existing (h : Holds sc (draws.withCustomers ids) db) (D : DistrictId sc) :
    (∀ o ∈ idsUpTo initialOrdersPerDistrict, IsCustomer db D (orderCustomer db D o)) ↔
      (ids.customerIdPermutation D.wId D.dId)[3000]? = some 3001 := by
  rw [← ids.taken_within, ← List.forall_mem_map, h.orderCustomers D, List.forall_mem_map]
  simp only [h.isCustomer D]

theorem Holds.orders_belong (h : Holds sc (draws.withCustomers ids) db) (D : DistrictId sc) :
    OrdersBelong db D ↔ (ids.customerIdPermutation D.wId D.dId)[3000]? = some 3001 := by
  rw [← h.orders_existing D]
  exact ⟨fun hb => hb.existing, fun he => ⟨h.orders_distinct D, he⟩⟩

end

/-- **In every district, whatever the shuffle, the orders belong to different customers
of the district if the shuffle leaves the id that is nobody's at the end.** -/
theorem orders_belong_iff (sc : Scale) (draws : Draws) (ids : CustomerIds) :
    ∃ db, generate sc (draws.withCustomers ids) = .ok db ∧ ∀ D : DistrictId sc,
      (OrdersBelong db D ↔
        (ids.customerIdPermutation D.wId D.dId)[customersPerDistrict.toNat]? = some 3001) := by
  obtain ⟨db, hgen, h⟩ := generate_holds sc (draws.withCustomers ids)
  exact ⟨db, hgen, h.orders_belong⟩

/-- The id that is nobody's comes first. -/
def exampleIds : CustomerIds where
  customerIdPermutation := fun _ _ => 3001 :: permutationIds 1 3000
  shuffled := by
    intro w d
    have hmax : customersPerDistrict.toNat = 3000 := rfl
    have hid : UInt32.ofNat (1 + 3000) = 3001 := rfl
    rw [MakePermutation, hmax, permutationIds_succ 3000, hid]
    exact (List.perm_append_singleton 3001 (permutationIds 1 3000)).symm

/-- The first district of the first warehouse. -/
def exampleDistrict : DistrictId Scale.one := ⟨1, 1, by decide, by decide⟩

/-- The first order of the first district is nobody's. -/
theorem order_of_nobody :
    ∃ db, generate Scale.one (exampleDraws.withCustomers exampleIds) = .ok db ∧
      ¬ OrdersBelong db exampleDistrict := by
  obtain ⟨db, hgen, h⟩ := generate_holds Scale.one (exampleDraws.withCustomers exampleIds)
  refine ⟨db, hgen, fun hb => ?_⟩
  have hlast := (h.orders_belong exampleDistrict).mp hb
  simp only [exampleIds, List.getElem?_cons_succ, permutationIds, List.getElem?_map] at hlast
  rw [List.getElem?_range (by decide)] at hlast
  exact absurd hlast (by decide)

end Doradd.Tpcc
