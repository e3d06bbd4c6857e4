import Mathlib.Data.List.Count

/-!
# Counting in lists

* `countP_flatMap_le`: a nested loop of bounded bodies;
* `countP_le_of_labels`: a list in which each of `n` labels occurs at most `c`
  times has at most `n * c` labelled entries;
* `countP_range`: a list, by its positions.
-/

namespace Lib

variable {α β : Type}

theorem countP_flatMap_le {l : List α} {f : α → List β} {p : β → Bool} {c : Nat}
    (h : ∀ a ∈ l, (f a).countP p ≤ c) : (l.flatMap f).countP p ≤ l.length * c := by
  induction l with
  | nil => exact Nat.zero_le _
  | cons a l ih =>
    have h₁ := h a List.mem_cons_self
    have h₂ := ih fun b hb => h b (List.mem_cons_of_mem a hb)
    rw [List.flatMap_cons, List.countP_append, List.length_cons, Nat.add_mul, Nat.one_mul]
    omega

/-- Entries with a label below `n + 1` have one below `n` or the label `n`. -/
theorem countP_lt_succ (l : List α) (p : α → Bool) (label : α → Nat) (n : Nat) :
    l.countP (fun a => p a && label a < n + 1) =
      l.countP (fun a => p a && label a < n) + l.countP fun a => p a && label a = n := by
  induction l with
  | nil => rfl
  | cons a l ih =>
    simp only [List.countP_cons, ih]
    cases p a with
    | false =>
      simp only [Bool.false_and, Bool.false_eq_true, if_false]
      omega
    | true =>
      simp only [Bool.true_and, decide_eq_true_eq]
      split <;> split <;> split <;> omega

theorem countP_le_of_labels {l : List α} {p : α → Bool} (label : α → Nat) {n c : Nat}
    (hlt : ∀ a ∈ l, p a = true → label a < n)
    (hc : ∀ k < n, l.countP (fun a => p a && label a = k) ≤ c) : l.countP p ≤ n * c := by
  have hbelow : ∀ m ≤ n, l.countP (fun a => p a && label a < m) ≤ m * c := by
    intro m
    induction m with
    | zero =>
      intro _
      have hzero : l.countP (fun a => p a && label a < 0) = 0 := by
        rw [List.countP_eq_zero]
        intro a _
        simp
      omega
    | succ m ih =>
      intro hm
      have h₁ := ih (by omega)
      have h₂ := hc m (by omega)
      rw [countP_lt_succ, Nat.add_mul, Nat.one_mul]
      omega
  have hall : l.countP p = l.countP fun a => p a && label a < n := by
    apply List.countP_congr
    intro a ha
    rw [Bool.and_eq_true, decide_eq_true_eq]
    exact ⟨fun hp => ⟨hp, hlt a ha hp⟩, And.left⟩
  rw [hall]
  exact hbelow n (Nat.le_refl n)

theorem countP_range (p : α → Bool) (l : List α) :
    ((List.range l.length).countP fun i => l[i]?.any p) = l.countP p := by
  have hmap : (List.range l.length).map (fun i => l[i]?) = l.map some := by
    apply List.ext_getElem
    · simp
    · intro i _ _
      simp
  have hcount := congrArg (List.countP (Option.any p)) hmap
  rw [List.countP_map, List.countP_map] at hcount
  exact hcount

end Lib
