import Mathlib.Logic.Basic

/-!
# Programs that draw numbers

A program takes the outcomes of its draws from the front of a list.  It fails if an
assertion does, if an outcome is not among those that a draw can have, or if the list
ends before the program does.

* `Ensures`: every result that a program can return satisfies a condition;
* `Ensures.bind`, `Ensures.ite`: rules for sequences and branches;
* `Ensures.repeatM`: a loop of a fixed number of rounds, by an invariant;
* `Ensures.retry`: a loop that draws again until a result will do.
-/

namespace Lib

variable {α β σ : Type}

abbrev Draw (α : Type) : Type := StateT (List Nat) Option α

/-- Any number from `lo` to `hi`. -/
def randint (lo hi : Nat) : Draw Nat := fun draws =>
  match draws with
  | v :: rest => if lo ≤ v ∧ v ≤ hi then some (v, rest) else none
  | [] => none

/-- `assert` -/
def check (p : Prop) [Decidable p] : Draw Unit := if p then pure () else failure

/-- `n` rounds of a loop. -/
def repeatM : Nat → (σ → Draw σ) → σ → Draw σ
  | 0, _, s => pure s
  | n + 1, step, s => do
    let s ← repeatM n step s
    step s

/-- At most `fuel` attempts. -/
def retryFuel : Nat → Draw α → (α → Bool) → Draw α
  | 0, _, _ => failure
  | fuel + 1, g, ok => do
    let a ← g
    if ok a then pure a else retryFuel fuel g ok

/-- Draw until the result will do.  Every attempt takes a draw, so there are no more
attempts than draws. -/
def retry (g : Draw α) (ok : α → Bool) : Draw α := fun draws => retryFuel draws.length g ok draws

/-! ## Results -/

/-- Whatever is drawn, a result satisfies `P`. -/
def Ensures (g : Draw α) (P : α → Prop) : Prop :=
  ∀ draws a rest, g draws = some (a, rest) → P a

variable {g : Draw α} {P : α → Prop} {R : β → Prop}

theorem Ensures.pure {a : α} (h : P a) : Ensures (Pure.pure a) P := by
  intro draws b rest hg
  cases hg
  exact h

theorem Ensures.failure : Ensures (Alternative.failure : Draw α) P := by
  intro draws a rest hg
  cases hg

/-- **Sequences.** -/
theorem Ensures.bind {f : α → Draw β} (hg : Ensures g P) (hf : ∀ a, P a → Ensures (f a) R) :
    Ensures (g >>= f) R := by
  intro draws b rest h
  obtain ⟨⟨a, mid⟩, ha, hb⟩ := Option.bind_eq_some_iff.mp h
  exact hf a (hg draws a mid ha) mid b rest hb

/-- A step whose result does not matter. -/
theorem Ensures.then {f : α → Draw β} (hf : ∀ a, Ensures (f a) R) : Ensures (g >>= f) R :=
  Ensures.bind (P := fun _ => True) (fun _ _ _ _ => trivial) fun a _ => hf a

theorem Ensures.ite {c : Prop} [Decidable c] {g' : Draw α} (h : c → Ensures g P)
    (h' : ¬ c → Ensures g' P) : Ensures (if c then g else g') P := by
  split
  · rename_i hc
    exact h hc
  · rename_i hc
    exact h' hc

theorem ensures_randint (lo hi : Nat) : Ensures (randint lo hi) fun v => lo ≤ v ∧ v ≤ hi := by
  intro draws v rest h
  unfold randint at h
  split at h
  · split at h
    · rename_i hv
      cases h
      exact hv
    · cases h
  · cases h

theorem ensures_check (p : Prop) [Decidable p] : Ensures (check p) fun _ => p :=
  .ite (fun hp => .pure hp) fun _ => .failure

/-- **Loops.** -/
theorem Ensures.repeatM {step : σ → Draw σ} {inv : Nat → σ → Prop} {s : σ} (h0 : inv 0 s)
    (hstep : ∀ k s, inv k s → Ensures (step s) (inv (k + 1))) (n : Nat) :
    Ensures (Lib.repeatM n step s) (inv n) := by
  induction n with
  | zero => exact .pure h0
  | succ n ih => exact ih.bind fun s hs => hstep n s hs

theorem Ensures.retryFuel (h : Ensures g P) (ok : α → Bool) (fuel : Nat) :
    Ensures (Lib.retryFuel fuel g ok) fun a => P a ∧ ok a = true := by
  induction fuel with
  | zero => exact .failure
  | succ fuel ih => exact h.bind fun a ha => .ite (fun hok => .pure ⟨ha, hok⟩) fun _ => ih

/-- **Rejection.** -/
theorem Ensures.retry (h : Ensures g P) (ok : α → Bool) :
    Ensures (Lib.retry g ok) fun a => P a ∧ ok a = true :=
  fun draws => h.retryFuel ok draws.length draws

end Lib
