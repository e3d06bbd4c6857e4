import Mathlib.Logic.Function.Basic
import Doradd.Lib.Footprint
import Doradd.Lib.Schedule

/-!
# Updates of single keys

A state gives a value to every key, possibly of a different type for each.  An
update replaces the value of one key by a function of that value.

* `applyAll_of_notMem`: keys that are not updated keep their values;
* `applyAll_local`: a list of updates is local to its keys.
-/

namespace Lib

variable {κ : Type} [DecidableEq κ] {ν : κ → Type}

structure Update (ν : κ → Type) where
  key : κ
  f : ν key → ν key

def Update.apply (u : Update ν) (s : ∀ k, ν k) : ∀ k, ν k :=
  Function.update s u.key (u.f (s u.key))

/-- Updates one after the other. -/
def applyAll (us : List (Update ν)) (s : ∀ k, ν k) : ∀ k, ν k := us.foldl (fun s u => u.apply s) s

section
variable (u : Update ν) (us vs : List (Update ν)) (s : ∀ k, ν k)

@[simp] theorem Update.apply_self : u.apply s u.key = u.f (s u.key) := Function.update_self _ _ _

theorem Update.apply_of_ne {k : κ} (h : k ≠ u.key) : u.apply s k = s k :=
  Function.update_of_ne h _ _

@[simp] theorem applyAll_nil : applyAll [] s = s := rfl

@[simp] theorem applyAll_cons : applyAll (u :: us) s = applyAll us (u.apply s) := rfl

theorem applyAll_append : applyAll (us ++ vs) s = applyAll vs (applyAll us s) :=
  List.foldl_append

end

theorem applyAll_of_notMem {us : List (Update ν)} {k : κ} (h : ∀ u ∈ us, k ≠ u.key)
    (s : ∀ k, ν k) : applyAll us s k = s k := by
  induction us generalizing s with
  | nil => rfl
  | cons u us ih =>
    rw [applyAll_cons, ih fun v hv => h v (List.mem_cons_of_mem u hv),
      u.apply_of_ne s (h u List.mem_cons_self)]

theorem Update.apply_local (u : Update ν) {K : Set κ} (h : u.key ∈ K) :
    LocalOn (fun s : ∀ k, ν k => s) K fun s t => u.apply s = t where
  frame := by
    rintro s _ rfl k hk
    exact u.apply_of_ne s fun he => hk (he ▸ h)
  reads := by
    rintro s s' _ _ rfl rfl he k hk
    by_cases hku : k = u.key
    · subst hku
      rw [u.apply_self, u.apply_self, he u.key h]
    · rw [u.apply_of_ne s hku, u.apply_of_ne s' hku, he k hk]

/-- **Footprint of a list of updates.** -/
theorem applyAll_local {us : List (Update ν)} {K : Set κ} (h : ∀ u ∈ us, u.key ∈ K) :
    LocalOn (fun s : ∀ k, ν k => s) K fun s t => applyAll us s = t := by
  induction us with
  | nil => exact localOn_eq.imp fun _ _ he => he.symm
  | cons u us ih =>
    have hu := u.apply_local (h u List.mem_cons_self)
    have hus := ih fun v hv => h v (List.mem_cons_of_mem u hv)
    exact (hu.comp hus).imp fun s t he => ⟨u.apply s, rfl, he⟩

/-- Operations that are lists of updates, run one after the other. -/
theorem exec_applyAll {op : Type} (updates : op → List (Update ν)) (ops : List op)
    (s : ∀ k, ν k) :
    exec (fun a => applyAll (updates a)) ops s = applyAll (ops.flatMap updates) s := by
  induction ops generalizing s with
  | nil => rfl
  | cons a ops ih => rw [exec_cons, ih, List.flatMap_cons, applyAll_append]

end Lib
