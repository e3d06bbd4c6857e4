import Mathlib.Data.Set.Lattice
import Mathlib.Order.CompletePartialOrder
import Doradd.Lib.Fallible

/-!
# Footprints

A state is looked at through `obs`, which shows a value for every key, possibly
of a different type for each.  An update, a relation between the states before
and after, is local to a set of keys if it leaves the other keys alone and what
it puts on these keys depends on nothing else.

* `LocalOn.comp`: one update after the other is local where they are;
* `LocalOn.choose`: so is an update selected by what the keys show;
* `LocalOn.comm`: updates local to disjoint sets of keys commute;
* `LocalStep.bind`, `read`, `foldlM`: fallible steps are local where their parts
  are.
-/

namespace Lib

variable {σ κ : Type} {ν : κ → Type}

/-- `R` reads and writes the keys in `K` only. -/
structure LocalOn (obs : σ → ∀ k, ν k) (K : Set κ) (R : σ → σ → Prop) : Prop where
  frame : ∀ {s t}, R s t → ∀ k ∉ K, obs t k = obs s k
  reads : ∀ {s s' t t'}, R s t → R s' t' → (∀ k ∈ K, obs s k = obs s' k) →
    ∀ k ∈ K, obs t k = obs t' k

variable {obs : σ → ∀ k, ν k} {K L : Set κ} {R S : σ → σ → Prop}

theorem localOn_eq : LocalOn obs K fun s t => t = s where
  frame := by
    rintro s t rfl k _
    rfl
  reads := by
    rintro s s' t t' rfl rfl he
    exact he

/-- A smaller relation is local where the larger one is. -/
theorem LocalOn.imp (h : LocalOn obs K R) (hi : ∀ s t, S s t → R s t) : LocalOn obs K S where
  frame := fun hS => h.frame (hi _ _ hS)
  reads := fun hS hS' => h.reads (hi _ _ hS) (hi _ _ hS')

theorem LocalOn.comp (hR : LocalOn obs K R) (hS : LocalOn obs K S) :
    LocalOn obs K fun s t => ∃ u, R s u ∧ S u t where
  frame := by
    rintro s t ⟨u, h₁, h₂⟩ k hk
    rw [hS.frame h₂ k hk, hR.frame h₁ k hk]
  reads := by
    rintro s s' t t' ⟨u, h₁, h₂⟩ ⟨u', h₁', h₂'⟩ he
    exact hS.reads h₂ h₂' (hR.reads h₁ h₁' he)

/-- An update selected by a value that the keys in `K` determine. -/
theorem LocalOn.choose {α : Type} {sel : σ → α → Prop} {T : α → σ → σ → Prop}
    (hsel : ∀ s s' a a', sel s a → sel s' a' → (∀ k ∈ K, obs s k = obs s' k) → a = a')
    (hT : ∀ a, LocalOn obs K (T a)) : LocalOn obs K fun s t => ∃ a, sel s a ∧ T a s t where
  frame := by
    rintro s t ⟨a, _, h⟩
    exact (hT a).frame h
  reads := by
    rintro s s' t t' ⟨a, ha, h⟩ ⟨a', ha', h'⟩ he
    obtain rfl := hsel s s' a a' ha ha' he
    exact (hT a).reads h h' he

/-- **Disjoint footprints commute**, as far as `obs` shows. -/
theorem LocalOn.comm (hR : LocalOn obs K R) (hS : LocalOn obs L S) (hd : Disjoint K L)
    {s t u v v' : σ} (h₁ : R s t) (h₂ : S t v) (h₃ : S s u) (h₄ : R u v') : obs v = obs v' := by
  rw [Set.disjoint_left] at hd
  funext k
  by_cases hK : k ∈ K
  · have hL : k ∉ L := hd hK
    rw [hS.frame h₂ k hL]
    exact hR.reads h₁ h₄ (fun j hj => (hS.frame h₃ j (hd hj)).symm) k hK
  · rw [hR.frame h₄ k hK]
    by_cases hL : k ∈ L
    · exact hS.reads h₂ h₃ (fun j hj => hR.frame h₁ j fun hj' => hd hj' hj) k hL
    · rw [hS.frame h₂ k hL, hS.frame h₃ k hL, hR.frame h₁ k hK]

/-! ## Fallible steps -/

variable {ε α : Type}

/-- What a fallible step does if it succeeds is local. -/
def LocalStep (obs : σ → ∀ k, ν k) (K : Set κ) (f : σ → Except ε σ) : Prop :=
  LocalOn obs K fun s t => f s = .ok t

theorem LocalStep.bind {f g : σ → Except ε σ} (hf : LocalStep obs K f) (hg : LocalStep obs K g) :
    LocalStep obs K fun s => f s >>= g :=
  (hf.comp hg).imp fun _ _ => bind_eq_ok.mp

/-- Go on with a value that the keys in `K` determine. -/
theorem LocalStep.read {rd : σ → Except ε α} {g : α → σ → Except ε σ}
    (hrd : ∀ s s' a a', rd s = .ok a → rd s' = .ok a' → (∀ k ∈ K, obs s k = obs s' k) → a = a')
    (hg : ∀ a, LocalStep obs K (g a)) : LocalStep obs K fun s => rd s >>= fun a => g a s :=
  (LocalOn.choose hrd hg).imp fun _ _ => bind_eq_ok.mp

theorem LocalStep.foldlM {step : σ → α → Except ε σ} {as : List α}
    (h : ∀ a ∈ as, LocalStep obs K fun s => step s a) :
    LocalStep obs K fun s => as.foldlM step s := by
  induction as with
  | nil => exact localOn_eq.imp fun s t hst => (foldlM_nil_ok.mp hst).symm
  | cons a as ih =>
    have ha := h a List.mem_cons_self
    have has := ih fun b hb => h b (List.mem_cons_of_mem a hb)
    exact (LocalStep.bind ha has).imp fun s t hst => bind_eq_ok.mpr (foldlM_cons_ok.mp hst)

end Lib
