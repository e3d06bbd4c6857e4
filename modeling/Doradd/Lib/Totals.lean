import Mathlib.Algebra.BigOperators.Group.List.Basic
import Doradd.Lib.Schedule

/-!
# Totals

What the selected entries of a list amount to.

* `total_set`: the total of a list with one entry replaced;
* `total_eq_sum_totals`: the total of a list, label by label;
* `exec_total`: a quantity that every operation raises by its own amount.
-/

namespace Lib

variable {α κ M : Type} [AddCommMonoid M]

/-- The sum of `f` over the entries that satisfy `p`. -/
def total (f : α → M) (p : α → Bool) (l : List α) : M := (l.map fun a => if p a then f a else 0).sum

variable {f g : α → M} {p q : α → Bool} {l : List α}

@[simp] theorem total_nil : total f p [] = 0 := rfl

@[simp] theorem total_cons (a : α) :
    total f p (a :: l) = (if p a then f a else 0) + total f p l := by
  unfold total
  rw [List.map_cons, List.sum_cons]

theorem total_snoc (l : List α) (a : α) :
    total f p (l ++ [a]) = total f p l + if p a then f a else 0 := by
  unfold total
  rw [List.map_append, List.sum_append, List.map_singleton, List.sum_singleton]

/-- Entries that amount to nothing may be selected or not. -/
theorem total_congr (h : ∀ a ∈ l, (if p a then f a else 0) = if q a then g a else 0) :
    total f p l = total g q l := by
  unfold total
  rw [List.map_congr_left h]

/-- The entries that some of `bs` stand for. -/
theorem total_filterMap {β : Type} (sel : β → Option α) (bs : List β) :
    total f p (bs.filterMap sel) =
      total (fun b => (sel b).elim 0 f) (fun b => (sel b).any p) bs := by
  induction bs with
  | nil => rfl
  | cons b bs ih =>
    rw [total_cons, ← ih]
    cases hb : sel b with
    | none =>
      rw [List.filterMap_cons_none hb, Option.any_none, if_neg Bool.false_ne_true, zero_add]
    | some a => rw [List.filterMap_cons_some hb, total_cons, Option.any_some, Option.elim_some]

theorem total_eq_zero (h : ∀ a ∈ l, p a = false) : total f p l = 0 := by
  unfold total
  apply List.sum_eq_zero
  intro x hx
  obtain ⟨a, ha, rfl⟩ := List.mem_map.mp hx
  rw [h a ha]
  rfl

/-- One entry is replaced by another. -/
theorem total_set {i : Nat} {a b : α} (h : l[i]? = some a) :
    total f p (l.set i b) + (if p a then f a else 0) =
      total f p l + if p b then f b else 0 := by
  induction l generalizing i with
  | nil => cases h
  | cons c l ih =>
    cases i with
    | zero =>
      rw [List.getElem?_cons_zero, Option.some.injEq] at h
      rw [List.set_cons_zero, total_cons, total_cons, h]
      ac_rfl
    | succ i =>
      rw [List.getElem?_cons_succ] at h
      rw [List.set_cons_succ, total_cons, total_cons, add_assoc, ih h, add_assoc]

theorem total_le {f : α → Nat} {p : α → Bool} {l : List α} {c : Nat}
    (h : ∀ a ∈ l, p a = true → f a ≤ c) : total f p l ≤ l.length * c := by
  induction l with
  | nil => exact Nat.zero_le _
  | cons a l ih =>
    have hrest := ih fun b hb => h b (List.mem_cons_of_mem a hb)
    have ha : (if p a then f a else 0) ≤ c := by
      split
      · exact h a List.mem_cons_self ‹_›
      · exact Nat.zero_le c
    rw [total_cons, List.length_cons, Nat.succ_mul]
    omega

/-- **Double counting.**  If every selected entry has one of the labels `ls`, the
total is the sum of the totals of the labels. -/
theorem total_eq_sum_totals [DecidableEq κ] {ls : List κ} (hls : ls.Nodup) (label : α → κ)
    (h : ∀ a ∈ l, p a = true → label a ∈ ls) :
    (ls.map fun i => total f (fun a => p a && label a = i) l).sum = total f p l := by
  induction l with
  | nil =>
    simp only [total_nil]
    exact List.sum_map_zero
  | cons a l ih =>
    simp only [total_cons]
    rw [List.sum_map_add, ih fun b hb => h b (List.mem_cons_of_mem a hb)]
    congr 1
    cases hp : p a with
    | false =>
      simp only [Bool.false_and, Bool.false_eq_true, if_false]
      exact List.sum_map_zero
    | true =>
      simp only [Bool.true_and, decide_eq_true_eq, if_true]
      have hmem := h a List.mem_cons_self hp
      -- the label of `a` is the only one that counts it
      rw [List.sum_map_eq_nsmul_single (label a) _ fun i hi _ => if_neg (Ne.symm hi),
        hls.count, if_pos hmem, one_nsmul, if_pos rfl]

/-- **Step by step.**  If every operation keeps `P` and raises `m` by its amount,
a run raises `m` by the total. -/
theorem exec_total {σ : Type} {step : α → σ → σ} {P : σ → Prop} {m : σ → M}
    (h : ∀ a ∈ l, ∀ s, P s → P (step a s) ∧ m (step a s) = m s + if p a then f a else 0) {s : σ}
    (hs : P s) : m (exec step l s) = m s + total f p l := by
  induction l generalizing s with
  | nil => rw [exec_nil, total_nil, add_zero]
  | cons a l ih =>
    obtain ⟨hP, hm⟩ := h a List.mem_cons_self s hs
    rw [exec_cons, ih (fun b hb => h b (List.mem_cons_of_mem a hb)) hP, hm, total_cons, add_assoc]

end Lib
