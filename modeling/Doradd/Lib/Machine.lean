import Mathlib.Data.List.Induction

/-!
# Guarded machines and their runs

A machine is a guarded, executable step function over labels.  A run is a list
of labels; the state it reaches is computed, so a concrete run can be replayed.

* `run_induction`: what holds at the start and is kept by every enabled step
  holds of every run and the state it reaches;
* `run_split`: every label of a run is a step from a reached state;
* `Along`: every step of a run meets a condition on the state before it, which
  `checkAlong` decides;
* `along_project`, `run_project`: a machine whose steps are matched, label by
  label, by the steps of a second machine has its runs matched by that machine's
  runs.
-/

namespace Lib

/-- A guarded machine: `step s l` is `none` where label `l` is not enabled. -/
structure Machine (σ lab : Type) where
  init : σ
  step : σ → lab → Option σ

namespace Machine

variable {σ τ lab lab' : Type} (M : Machine σ lab) (N : Machine τ lab')

def runFrom (s : σ) (tr : List lab) : Option σ := tr.foldlM M.step s

/-- The state reached by a list of labels, if every one of them is enabled. -/
def run (tr : List lab) : Option σ := M.runFrom M.init tr

@[simp] theorem run_nil : M.run [] = some M.init := rfl

theorem runFrom_cons (s : σ) (l : lab) (tr : List lab) :
    M.runFrom s (l :: tr) = (M.step s l).bind fun t => M.runFrom t tr := rfl

theorem runFrom_append (s : σ) (tr tr' : List lab) :
    M.runFrom s (tr ++ tr') = (M.runFrom s tr).bind fun t => M.runFrom t tr' := by
  simp only [runFrom, List.foldlM_append]
  rfl

theorem run_append (tr tr' : List lab) :
    M.run (tr ++ tr') = (M.run tr).bind fun t => M.runFrom t tr' :=
  M.runFrom_append M.init tr tr'

theorem run_snoc (tr : List lab) (l : lab) (s' : σ) :
    M.run (tr ++ [l]) = some s' ↔ ∃ s, M.run tr = some s ∧ M.step s l = some s' := by
  rw [run_append, Option.bind_eq_some_iff]
  simp [runFrom]

variable {M N} {tr : List lab} {s : σ}

theorem runFrom_cons_of {t s' : σ} {l : lab} (hl : M.step s l = some t)
    (h : M.runFrom t tr = some s') : M.runFrom s (l :: tr) = some s' := by
  rw [runFrom_cons, hl]
  exact h

theorem runFrom_append_of {t s' : σ} {tr' : List lab} (h : M.runFrom s tr = some t)
    (h' : M.runFrom t tr' = some s') : M.runFrom s (tr ++ tr') = some s' := by
  rw [runFrom_append, h]
  exact h'

/-- **Run induction.** -/
theorem run_induction {P : List lab → σ → Prop} (init : P [] M.init)
    (step : ∀ tr s l s', M.run tr = some s → P tr s → M.step s l = some s' → P (tr ++ [l]) s')
    (h : M.run tr = some s) : P tr s := by
  induction tr using List.reverseRecOn generalizing s with
  | nil =>
    rw [run_nil, Option.some.injEq] at h
    exact h ▸ init
  | append_singleton tr l ih =>
    obtain ⟨t, ht, hl⟩ := (M.run_snoc tr l s).mp h
    exact step tr t l s ht (ih ht) hl

/-- A prefix of a run is a run. -/
theorem run_isPrefix {tr' : List lab} (h : M.run (tr ++ tr') = some s) :
    ∃ t, M.run tr = some t ∧ M.runFrom t tr' = some s := by
  rw [run_append, Option.bind_eq_some_iff] at h
  exact h

/-- Every label of a run is a step of the machine from a reached state. -/
theorem run_split {pre post : List lab} {l : lab} (h : M.run (pre ++ l :: post) = some s) :
    ∃ t t', M.run pre = some t ∧ M.step t l = some t' ∧ M.run (pre ++ [l]) = some t' := by
  obtain ⟨t, ht, hr⟩ := run_isPrefix h
  rw [runFrom_cons, Option.bind_eq_some_iff] at hr
  obtain ⟨t', hl, _⟩ := hr
  exact ⟨t, t', ht, hl, (M.run_snoc pre l t').mpr ⟨t, ht, hl⟩⟩

variable (M) in
/-- Every step of the run meets `C`, a condition on the state before the step
and its label. -/
def Along (C : σ → lab → Prop) (tr : List lab) : Prop :=
  ∀ pre l post s, tr = pre ++ l :: post → M.run pre = some s → C s l

variable {C : σ → lab → Prop}

theorem along_nil : M.Along C [] := by
  intro pre l post s h
  simp at h

theorem along_of_forall (hC : ∀ s l, C s l) (tr : List lab) : M.Along C tr :=
  fun _ l _ s _ _ => hC s l

theorem along_isPrefix {tr' : List lab} (ha : M.Along C (tr ++ tr')) : M.Along C tr :=
  fun pre l post s he hr => ha pre l (post ++ tr') s (by rw [he]; simp) hr

theorem along_snoc {l : lab} (h : M.run tr = some s) :
    M.Along C (tr ++ [l]) ↔ M.Along C tr ∧ C s l := by
  constructor
  · intro ha
    exact ⟨along_isPrefix ha, ha tr l [] s rfl h⟩
  · rintro ⟨ha, hl⟩ pre k post t he ht
    rcases List.eq_nil_or_concat post with rfl | ⟨post, k', rfl⟩
    · obtain ⟨rfl, hk⟩ := List.append_inj' he rfl
      rw [h, Option.some.injEq] at ht
      rw [List.cons.injEq] at hk
      rw [← hk.1, ← ht]
      exact hl
    · have he' : tr ++ [l] = (pre ++ k :: post) ++ [k'] := by simpa using he
      exact ha pre k post t (List.append_inj' he' rfl).1 ht

/-- Run induction along a condition on the steps. -/
theorem along_induction {P : List lab → σ → Prop} (init : P [] M.init)
    (step : ∀ tr s l s', M.run tr = some s → M.Along C tr → C s l → P tr s →
      M.step s l = some s' → P (tr ++ [l]) s')
    (h : M.run tr = some s) (ha : M.Along C tr) : P tr s := by
  revert ha
  refine run_induction (P := fun tr s => M.Along C tr → P tr s) (fun _ => init) ?_ h
  intro tr s l s' hr ih hl ha
  rw [along_snoc hr] at ha
  exact step tr s l s' hr ha.1 ha.2 (ih ha.1) hl

variable (M C) in
/-- Goes through a run and looks at each step. -/
def checkAlong [∀ s l, Decidable (C s l)] : σ → List lab → Bool
  | _, [] => true
  | s, l :: tr => decide (C s l) && (M.step s l).all fun t => checkAlong t tr

/-- A condition that can be decided is met by a run if the check says so. -/
theorem along_of_checkAlong [∀ s l, Decidable (C s l)] (h : M.checkAlong C M.init tr) :
    M.Along C tr := by
  have hfrom : ∀ (pre : List lab) (s t : σ) (l : lab) (post : List lab),
      M.checkAlong C s (pre ++ l :: post) → M.runFrom s pre = some t → C t l := by
    intro pre
    induction pre with
    | nil =>
      intro s t l post hcheck hrun
      obtain rfl := Option.some.inj hrun
      exact of_decide_eq_true (Bool.and_eq_true_iff.mp hcheck).1
    | cons k pre ih =>
      intro s t l post hcheck hrun
      rw [runFrom_cons, Option.bind_eq_some_iff] at hrun
      obtain ⟨u, hu, hrun⟩ := hrun
      have hrest := (Bool.and_eq_true_iff.mp hcheck).2
      rw [hu] at hrest
      exact ih u t l post hrest hrun
  rintro pre l post s rfl hrun
  exact hfrom pre M.init s l post h hrun

/-- **Projection.**  If every step of `M` that meets `C` is, through `f` and
`p`, a step of `N` or leaves `f` unchanged, then every run of `M` along `C`
projects to a run of `N`. -/
theorem along_project (f : σ → τ) (p : lab → Option lab') (init : f M.init = N.init)
    (step : ∀ tr s l s', M.run tr = some s → M.Along C tr → C s l → M.step s l = some s' →
      match p l with
      | some l' => N.step (f s) l' = some (f s')
      | none => f s' = f s)
    (h : M.run tr = some s) (ha : M.Along C tr) : N.run (tr.filterMap p) = some (f s) := by
  refine along_induction (P := fun tr s => N.run (tr.filterMap p) = some (f s)) ?_ ?_ h ha
  · rw [List.filterMap_nil, run_nil, init]
  · intro tr s l s' hr hat hc ih hl
    have hm := step tr s l s' hr hat hc hl
    rw [List.filterMap_append]
    cases hp : p l with
    | none =>
      rw [hp] at hm
      simpa [hp, hm] using ih
    | some l' =>
      rw [hp] at hm
      rw [List.filterMap_cons_some hp, List.filterMap_nil]
      exact (N.run_snoc _ l' _).mpr ⟨f s, ih, hm⟩

theorem run_project (f : σ → τ) (p : lab → Option lab') (init : f M.init = N.init)
    (step : ∀ tr s l s', M.run tr = some s → M.step s l = some s' →
      match p l with
      | some l' => N.step (f s) l' = some (f s')
      | none => f s' = f s)
    (h : M.run tr = some s) : N.run (tr.filterMap p) = some (f s) :=
  along_project (C := fun _ _ => True) f p init
    (fun tr s l s' hr _ _ hl => step tr s l s' hr hl) h (along_of_forall (fun _ _ => trivial) tr)

end Machine

end Lib
