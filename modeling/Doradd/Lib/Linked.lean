import Doradd.Lib.Checked

/-!
# Lists that are threaded through memory

Every node has the address of the next one; the last one has none.

* `Linked.congr`: writing elsewhere leaves a list as it is;
* `walk_eq`: going along the list visits its nodes, in order.
-/

namespace Lib

variable {α : Type}

/-- From `root` the nodes of a list come one after the other. -/
def Linked (next : α → Option α) : Option α → List α → Prop
  | root, [] => root = none
  | root, p :: ps => root = some p ∧ Linked next (next p) ps

/-- Go along the nodes, as far as there is fuel. -/
def walk (next : α → Option α) : Nat → Option α → Except Fault (List α)
  | _, none => .ok []
  | 0, some _ => .error .outOfFuel
  | fuel + 1, some p => do
    let ps ← walk next fuel (next p)
    pure (p :: ps)

theorem Linked.congr {next next' : α → Option α} {root : Option α} {ps : List α}
    (h : Linked next root ps) (hsame : ∀ p ∈ ps, next' p = next p) : Linked next' root ps := by
  induction ps generalizing root with
  | nil => exact h
  | cons p ps ih =>
    refine ⟨h.1, ?_⟩
    rw [hsame p List.mem_cons_self]
    exact ih h.2 fun q hq => hsame q (List.mem_cons_of_mem p hq)

/-- **The walk** takes as many rounds as there are nodes. -/
theorem walk_eq {next : α → Option α} {root : Option α} {ps : List α}
    (h : Linked next root ps) {fuel : Nat} (hfuel : ps.length ≤ fuel) :
    walk next fuel root = .ok ps := by
  induction ps generalizing root fuel with
  | nil =>
    rw [show root = none from h]
    cases fuel <;> rfl
  | cons p ps ih =>
    obtain ⟨rfl, h⟩ := h
    cases fuel with
    | zero => exact absurd hfuel (Nat.not_succ_le_zero _)
    | succ fuel =>
      rw [walk, bind_of_ok (ih h (Nat.le_of_succ_le_succ hfuel))]
      rfl

end Lib
