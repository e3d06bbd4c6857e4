import Doradd.Lib.Fallible

/-!
# Checked accesses and counting loops

Vectors are read and written at positions that are checked, and a loop that counts up is
a fold over the values of its counter.

* `readAt_eq_ok`, `writeAt_of_lt`: an access succeeds where there is an element;
* `foldlM_range'_inv`, `foldlM_upTo_inv`: a loop succeeds if every round does, by an
  invariant.
-/

namespace Lib

/-- What goes wrong in a program with unchecked accesses. -/
inductive Fault
  | outOfBounds
  | unset
  | outOfFuel
  deriving DecidableEq, Repr

variable {α σ ε : Type}

def readAt (xs : List α) (i : Nat) : Except Fault α :=
  match xs[i]? with
  | some a => .ok a
  | none => .error .outOfBounds

def writeAt (xs : List α) (i : Nat) (a : α) : Except Fault (List α) :=
  if i < xs.length then .ok (xs.set i a) else .error .outOfBounds

/-- A variable that may not have been set yet, or a pointer that may be null. -/
def readSet : Option α → Except Fault α
  | some a => .ok a
  | none => .error .unset

/-- The values of `i` in `for (i = first; i < last; i += step)`. -/
def upTo (first last step : Nat) : List Nat :=
  List.range' first ((last - first + step - 1) / step) step

/-! ## Accesses -/

theorem readAt_eq_ok {xs : List α} {i : Nat} {a : α} : readAt xs i = .ok a ↔ xs[i]? = some a := by
  unfold readAt
  cases xs[i]? with
  | none => simp
  | some b => simp

theorem writeAt_of_lt {xs : List α} {i : Nat} (a : α) (h : i < xs.length) :
    writeAt xs i a = .ok (xs.set i a) := if_pos h

theorem readSet_eq_ok {x : Option α} {a : α} : readSet x = .ok a ↔ x = some a := by
  cases x with
  | none => simp [readSet]
  | some b => simp [readSet]

/-! ## Loops -/

/-- **Loops**, by an invariant that is indexed by the counter. -/
theorem foldlM_range'_inv {step : σ → Nat → Except ε σ} (inv : Nat → σ → Prop) (first n : Nat)
    (hstep : ∀ k, first ≤ k → k < first + n → ∀ s, inv k s →
      ∃ t, step s k = .ok t ∧ inv (k + 1) t) {s : σ} (hs : inv first s) :
    ∃ t, (List.range' first n).foldlM step s = .ok t ∧ inv (first + n) t := by
  induction n generalizing first s with
  | zero => exact ⟨s, rfl, hs⟩
  | succ n ih =>
    obtain ⟨u, hu, hinv⟩ := hstep first (Nat.le_refl _) (by omega) s hs
    obtain ⟨t, ht, hinv'⟩ := ih (first + 1) (fun k hk hk' => hstep k (by omega) (by omega)) hinv
    refine ⟨t, foldlM_cons_ok.mpr ⟨u, hu, ht⟩, ?_⟩
    rw [Nat.add_right_comm] at hinv'
    exact hinv'

/-- The same for a counter that starts at zero. -/
theorem foldlM_range_inv {step : σ → Nat → Except ε σ} (inv : Nat → σ → Prop) (n : Nat)
    (hstep : ∀ k < n, ∀ s, inv k s → ∃ t, step s k = .ok t ∧ inv (k + 1) t) {s : σ}
    (hs : inv 0 s) : ∃ t, (List.range n).foldlM step s = .ok t ∧ inv n t := by
  obtain ⟨t, ht, hinv⟩ := foldlM_range'_inv inv 0 n
    (fun k _ hk => hstep k (by omega)) hs
  rw [Nat.zero_add] at hinv
  exact ⟨t, by rw [List.range_eq_range']; exact ht, hinv⟩

theorem upTo_one (first last : Nat) : upTo first last 1 = List.range' first (last - first) := by
  rw [upTo, Nat.add_sub_cancel, Nat.div_one]

theorem foldlM_upTo_inv {step : σ → Nat → Except ε σ} (inv : Nat → σ → Prop) (n : Nat)
    (hstep : ∀ k < n, ∀ s, inv k s → ∃ t, step s k = .ok t ∧ inv (k + 1) t) {s : σ}
    (hs : inv 0 s) : ∃ t, (upTo 0 n 1).foldlM step s = .ok t ∧ inv n t := by
  rw [upTo_one, Nat.sub_zero, ← List.range_eq_range']
  exact foldlM_range_inv inv n hstep hs

/-- Whole strides. -/
theorem upTo_stride {step : Nat} (h : 0 < step) (n : Nat) :
    upTo 0 (n * step) step = (List.range n).map fun t => t * step := by
  have hdiv : (n * step - 0 + step - 1) / step = n := by
    rw [Nat.sub_zero, Nat.add_sub_assoc h, Nat.add_comm, Nat.add_mul_div_right _ _ h,
      Nat.div_eq_of_lt (by omega), Nat.zero_add]
  rw [upTo, hdiv]
  apply List.ext_getElem
  · simp
  · intro t ht ht'
    simp [Nat.mul_comm]

end Lib
