import Mathlib.Data.List.Forall2

/-!
# Fallible steps

Rules for chains and folds of steps in `Except`, and for lists of optional values.

* `foldlM_keeps`: a fold that succeeds keeps what each of its steps keeps;
* `foldlM_succeeds`: a fold succeeds if what allows a step also allows, after
  it, the next one;
* `mapM_eq_some`: a list of optional values, all of which are there.
-/

namespace Lib

variable {ε α β σ : Type}

theorem bind_eq_ok {x : Except ε α} {f : α → Except ε β} {b : β} :
    x >>= f = .ok b ↔ ∃ a, x = .ok a ∧ f a = .ok b := by
  cases x with
  | error e => simp [bind, Except.bind]
  | ok a => simp [bind, Except.bind]

theorem bind_of_ok {x : Except ε α} {a : α} (h : x = .ok a) (f : α → Except ε β) :
    x >>= f = f a := by
  rw [h]
  rfl

section
variable {step : σ → α → Except ε σ}

theorem foldlM_nil_ok {s t : σ} : ([] : List α).foldlM step s = .ok t ↔ s = t := by
  rw [List.foldlM_nil]
  exact Except.ok.injEq s t ▸ Iff.rfl

theorem foldlM_cons_ok {a : α} {as : List α} {s t : σ} :
    (a :: as).foldlM step s = .ok t ↔ ∃ u, step s a = .ok u ∧ as.foldlM step u = .ok t := by
  rw [List.foldlM_cons, bind_eq_ok]

theorem foldlM_snoc_ok {a : α} {as : List α} {s t : σ} :
    (as ++ [a]).foldlM step s = .ok t ↔ ∃ u, as.foldlM step s = .ok u ∧ step u a = .ok t := by
  rw [List.foldlM_append, bind_eq_ok]
  constructor
  · rintro ⟨u, hu, h⟩
    rw [foldlM_cons_ok] at h
    obtain ⟨v, hv, hn⟩ := h
    exact ⟨u, hu, foldlM_nil_ok.mp hn ▸ hv⟩
  · rintro ⟨u, hu, h⟩
    exact ⟨u, hu, foldlM_cons_ok.mpr ⟨t, h, foldlM_nil_ok.mpr rfl⟩⟩

/-- What every step keeps, a fold keeps. -/
theorem foldlM_keeps {P : σ → Prop} {as : List α}
    (hstep : ∀ a ∈ as, ∀ s t, P s → step s a = .ok t → P t) {s t : σ} (hs : P s)
    (h : as.foldlM step s = .ok t) : P t := by
  induction as generalizing s with
  | nil => exact foldlM_nil_ok.mp h ▸ hs
  | cons a as ih =>
    rw [foldlM_cons_ok] at h
    obtain ⟨u, hu, h⟩ := h
    exact ih (fun b hb => hstep b (List.mem_cons_of_mem a hb))
      (hstep a List.mem_cons_self s u hs hu) h

/-- What one of the steps brings about and every step keeps holds after the fold. -/
theorem foldlM_reaches {P : σ → Prop} {a : α} {as : List α} (ha : a ∈ as)
    (hmake : ∀ s t, step s a = .ok t → P t)
    (hkeep : ∀ b ∈ as, ∀ s t, P s → step s b = .ok t → P t) {s t : σ}
    (h : as.foldlM step s = .ok t) : P t := by
  induction as generalizing s with
  | nil => exact absurd ha List.not_mem_nil
  | cons b as ih =>
    obtain ⟨u, hu, hfold⟩ := foldlM_cons_ok.mp h
    have hrest : ∀ c ∈ as, ∀ s t, P s → step s c = .ok t → P t :=
      fun c hc => hkeep c (List.mem_cons_of_mem b hc)
    rcases List.mem_cons.mp ha with rfl | ha
    · exact foldlM_keeps hrest (hmake s u hu) hfold
    · exact ih ha hrest hfold

/-- A condition on the state and the steps to come under which the next step
succeeds, and which then holds again, lets the whole fold succeed. -/
theorem foldlM_succeeds (step : σ → α → Except ε σ) (P : σ → List α → Prop)
    (hstep : ∀ a as s, P s (a :: as) → ∃ t, step s a = .ok t ∧ P t as) {as : List α} {s : σ}
    (hs : P s as) : ∃ t, as.foldlM step s = .ok t ∧ P t [] := by
  induction as generalizing s with
  | nil => exact ⟨s, rfl, hs⟩
  | cons a as ih =>
    obtain ⟨u, hu, hP⟩ := hstep a as s hs
    obtain ⟨t, ht, hP'⟩ := ih hP
    exact ⟨t, foldlM_cons_ok.mpr ⟨u, hu, ht⟩, hP'⟩

end

theorem mapM_eq_some {f : α → Option β} {as : List α} {bs : List β} :
    as.mapM f = some bs ↔ List.Forall₂ (fun a b => f a = some b) as bs := by
  induction as generalizing bs with
  | nil =>
    rw [List.mapM_nil, List.forall₂_nil_left_iff, Option.pure_def, Option.some.injEq, eq_comm]
  | cons a as ih =>
    rw [List.mapM_cons, List.forall₂_cons_left_iff]
    simp only [Option.bind_eq_bind, Option.bind_eq_some_iff, Option.pure_def, Option.some.injEq, ih]
    constructor
    · rintro ⟨b, hb, bs', hbs, rfl⟩
      exact ⟨b, bs', hb, hbs, rfl⟩
    · rintro ⟨b, bs', hb, hbs, rfl⟩
      exact ⟨b, hb, bs', hbs, rfl⟩

end Lib
