import Mathlib.Data.List.GetD
import Doradd.Lib.Machine
import Doradd.Lib.Schedule

/-!
# Running behaviours as they are spawned

A scheduler is handed behaviours one by one and runs them on a shared state.  It may run
a behaviour as soon as those that were spawned before it and conflict with it are done,
and it may be handed more at any time.

* `run_inv`: what is done is closed under conflicting predecessors, and in order with them;
* `isPrefix_filter`: behaviours that all conflict are run in the order in which they were
  spawned, and none of them is left out;
* `state_eq`: the state is that of the behaviours done so far, run in the order in which
  they were spawned;
* `completes`: whatever has been run, the rest can be run too.
-/

namespace Lib

/-! ## Calls -/

/-- A step of a scheduler: it is handed a behaviour, or it does some work of its own. -/
inductive Call (op lab : Type)
  | spawn (b : op)
  | work (l : lab)

section

variable {op lab : Type}

/-- The behaviours that were handed over. -/
def Call.spawned (tr : List (Call op lab)) : List op :=
  tr.filterMap fun
    | .spawn b => some b
    | .work _ => none

theorem Call.spawned_append (tr tr' : List (Call op lab)) :
    Call.spawned (tr ++ tr') = Call.spawned tr ++ Call.spawned tr' := List.filterMap_append

theorem Call.spawned_map_spawn (bs : List op) :
    Call.spawned (bs.map (@Call.spawn op lab)) = bs := by
  rw [Call.spawned, List.filterMap_map]
  exact List.filterMap_some

theorem Call.spawned_map_work (ls : List lab) :
    Call.spawned (ls.map (@Call.work op lab)) = [] := by
  rw [Call.spawned, List.filterMap_map, List.filterMap_eq_nil_iff]
  exact fun _ _ => rfl

/-! ## Positions -/

variable [Inhabited op]

/-- The behaviour at a position. -/
def opAt (ops : List op) (i : Nat) : op := ops.getD i default

theorem opAt_append {ops : List op} {i : Nat} (h : i < ops.length) (ops' : List op) :
    opAt (ops ++ ops') i = opAt ops i := List.getD_append ops ops' default i h

theorem opAt_mem {ops : List op} {i : Nat} (h : i < ops.length) : opAt ops i ∈ ops := by
  rw [opAt, List.getD_eq_getElem _ _ h]
  exact List.getElem_mem h

theorem map_opAt_range (ops : List op) : (List.range ops.length).map (opAt ops) = ops := by
  apply List.ext_getElem
  · rw [List.length_map, List.length_range]
  · intro i hi hi'
    rw [List.getElem_map, List.getElem_range, opAt, List.getD_eq_getElem _ _ hi']

/-- Positions in a list that was made from another one. -/
theorem map_opAt_map {α : Type} (f : α → op) (as : List α) {is : List Nat}
    (h : ∀ i ∈ is, i < as.length) :
    is.map (opAt (as.map f)) = (is.filterMap fun i => as[i]?).map f := by
  induction is with
  | nil => rfl
  | cons i is ih =>
    have hi := h i List.mem_cons_self
    rw [List.map_cons, ih fun j hj => h j (List.mem_cons_of_mem i hj),
      List.filterMap_cons_some (List.getElem?_eq_getElem hi), List.map_cons, opAt,
      List.getD_eq_getElem _ _ (by rwa [List.length_map]), List.getElem_map]

/-- The first positions give the first elements. -/
theorem map_get_eq_take {α : Type} {as : List α} {es : List (Fin as.length)} {k : Nat}
    (h : es.map Fin.val = List.range k) : es.map as.get = as.take k := by
  have hlen := congrArg List.length h
  rw [List.length_map, List.length_range] at hlen
  have hval : ∀ (i : Nat) (hi : i < es.length), es[i].val = i := by
    intro i hi
    have hget := congrArg (fun l => l[i]?) h
    simp only [List.getElem?_map, List.getElem?_eq_getElem hi,
      List.getElem?_range (hlen ▸ hi), Option.map_some, Option.some.injEq] at hget
    exact hget
  have hle : k ≤ as.length := by
    rcases Nat.eq_zero_or_pos k with rfl | hpos
    · exact Nat.zero_le _
    · have hk : k - 1 < es.length := by omega
      have hlast := hval (k - 1) hk
      have hlt := es[k - 1].isLt
      omega
  apply List.ext_getElem
  · rw [List.length_map, List.length_take, hlen, Nat.min_eq_left hle]
  · intro i hi hi'
    rw [List.length_map] at hi
    rw [List.getElem_map, List.getElem_take, List.get_eq_getElem]
    simp only [hval i hi]

/-- The least position that is not among `done`. -/
theorem exists_least {done : List Nat} {n : Nat} (h : ∃ i < n, i ∉ done) :
    ∃ i < n, i ∉ done ∧ ∀ j < i, j ∈ done := by
  classical
  refine ⟨Nat.find h, (Nat.find_spec h).1, (Nat.find_spec h).2, fun j hj => ?_⟩
  by_contra hn
  exact Nat.find_min h hj ⟨Nat.lt_trans hj (Nat.find_spec h).1, hn⟩

/-- Positions of which none is left out below another. -/
theorem isPrefix_of_closed {D S : List Nat} (hD : D.Pairwise (· < ·)) (hS : S.Pairwise (· < ·))
    (hsub : ∀ i ∈ D, i ∈ S) (hclosed : ∀ i ∈ D, ∀ j ∈ S, j < i → j ∈ D) : D <+: S := by
  induction S generalizing D with
  | nil =>
    cases D with
    | nil => exact List.nil_prefix
    | cons d D => exact absurd (hsub d List.mem_cons_self) List.not_mem_nil
  | cons a S ih =>
    cases D with
    | nil => exact List.nil_prefix
    | cons d D =>
      rw [List.pairwise_cons] at hD hS
      have hda : d = a := by
        by_contra hne
        have hdS : d ∈ S := (List.mem_cons.mp (hsub d List.mem_cons_self)).resolve_left hne
        have hlt := hS.1 d hdS
        rcases List.mem_cons.mp (hclosed d List.mem_cons_self a List.mem_cons_self hlt) with h | h
        · exact hne h.symm
        · exact Nat.lt_asymm hlt (hD.1 a h)
      subst hda
      rw [List.cons_prefix_cons]
      refine ⟨rfl, ih hD.2 hS.2 (fun i hi => ?_) fun i hi j hj hji => ?_⟩
      · exact (List.mem_cons.mp (hsub i (List.mem_cons_of_mem d hi))).resolve_left
          (Nat.ne_of_gt (hD.1 i hi))
      · exact (List.mem_cons.mp (hclosed i (List.mem_cons_of_mem d hi) j
          (List.mem_cons_of_mem d hj) hji)).resolve_left (Nat.ne_of_gt (hS.1 j hj))

end

/-! ## The scheduler -/

/-- The behaviours in spawn order, the positions of those that are done in the order in
which they were run, and the state. -/
structure Behaviours (op σ : Type) where
  spawned : List op
  done : List Nat
  state : σ

namespace Behaviours

variable {op σ : Type} [Inhabited op] (execute : op → σ → σ) (conflict : op → op → Prop)

/-- Behaviour `i` is there, it is not done, and every one before it that conflicts with it
is. -/
def Runnable (s : Behaviours op σ) (i : Nat) : Prop :=
  i < s.spawned.length ∧ i ∉ s.done ∧
    ∀ j < i, conflict (opAt s.spawned j) (opAt s.spawned i) → j ∈ s.done

instance [DecidableRel conflict] (s : Behaviours op σ) (i : Nat) :
    Decidable (s.Runnable conflict i) :=
  inferInstanceAs (Decidable (_ ∧ _ ∧ _))

variable [DecidableRel conflict]

def step (s : Behaviours op σ) : Call op Nat → Option (Behaviours op σ)
  | .spawn b => some { s with spawned := s.spawned ++ [b] }
  | .work i =>
    if s.Runnable conflict i then
      some { s with done := s.done ++ [i], state := execute (opAt s.spawned i) s.state }
    else none

def machine (s₀ : σ) : Machine (Behaviours op σ) (Call op Nat) :=
  ⟨⟨[], [], s₀⟩, step execute conflict⟩

theorem step_spawn_congr (execute' : op → σ → σ) (s₀ : σ) (s : Behaviours op σ) (b : op) :
    (machine execute' conflict s₀).step s (.spawn b) =
      (machine execute conflict s₀).step s (.spawn b) := rfl

/-- A step depends on what its own behaviour does. -/
theorem step_work_congr {execute' : op → σ → σ} {s₀ : σ} {s : Behaviours op σ} {i : Nat}
    (h : opAt s.spawned i ∈ s.spawned →
      execute' (opAt s.spawned i) s.state = execute (opAt s.spawned i) s.state) :
    (machine execute' conflict s₀).step s (.work i) =
      (machine execute conflict s₀).step s (.work i) := by
  simp only [machine, step]
  by_cases hr : s.Runnable conflict i
  · rw [if_pos hr, if_pos hr, h (opAt_mem hr.1)]
  · rw [if_neg hr, if_neg hr]

/-- The positions that are done, in spawn order. -/
def finished (s : Behaviours op σ) : List Nat :=
  (List.range s.spawned.length).filter fun i => i ∈ s.done

/-- Everything that was spawned is done. -/
def AllDone (s : Behaviours op σ) : Prop := ∀ i < s.spawned.length, i ∈ s.done

/-! ## What holds in every run -/

/-- The facts of every run from `s₀`. -/
structure Inv (s₀ : σ) (s : Behaviours op σ) : Prop where
  done_lt : ∀ i ∈ s.done, i < s.spawned.length
  nodup : s.done.Nodup
  closed : ∀ i ∈ s.done, ∀ j < i,
    conflict (opAt s.spawned j) (opAt s.spawned i) → j ∈ s.done
  keeps : s.done.Pairwise fun i j =>
    conflict (opAt s.spawned i) (opAt s.spawned j) → i < j
  state : s.state = exec execute (s.done.map (opAt s.spawned)) s₀

section

variable {execute conflict} {s₀ : σ} {s : Behaviours op σ}

omit [DecidableRel conflict] in
theorem Inv.spawn (h : Inv execute conflict s₀ s) (b : op) :
    Inv execute conflict s₀ { s with spawned := s.spawned ++ [b] } := by
  have hat : ∀ i ∈ s.done, opAt (s.spawned ++ [b]) i = opAt s.spawned i :=
    fun i hi => opAt_append (h.done_lt i hi) [b]
  refine ⟨fun i hi => ?_, h.nodup, fun i hi j hj => ?_, ?_, ?_⟩
  · have hlt := h.done_lt i hi
    rw [List.length_append]
    omega
  · have hlt := h.done_lt i hi
    rw [hat i hi, opAt_append (by omega)]
    exact h.closed i hi j hj
  · refine h.keeps.imp_of_mem fun {i j} hi hj hij => ?_
    rw [hat i hi, hat j hj]
    exact hij
  · rw [h.state]
    exact congrArg (exec execute · s₀) (List.map_congr_left fun i hi => (hat i hi).symm)

omit [DecidableRel conflict] in
/-- Behaviours that conflict with the one that is run now were done before it, and are not
later ones: a later one would have waited. -/
theorem Inv.run (hsymm : ∀ a b, conflict a b → conflict b a) (h : Inv execute conflict s₀ s)
    {i : Nat} (hr : s.Runnable conflict i) :
    Inv execute conflict s₀
      { s with done := s.done ++ [i], state := execute (opAt s.spawned i) s.state } := by
  obtain ⟨hlt, hnot, hpred⟩ := hr
  refine ⟨fun j hj => ?_, ?_, fun j hj k hk hc => ?_, ?_, ?_⟩
  · rcases List.mem_append.mp hj with hj | hj
    · exact h.done_lt j hj
    · rw [List.mem_singleton.mp hj]
      exact hlt
  · rw [List.nodup_append]
    refine ⟨h.nodup, List.nodup_singleton i, fun a ha b hb => ?_⟩
    rw [List.mem_singleton.mp hb]
    rintro rfl
    exact hnot ha
  · rcases List.mem_append.mp hj with hj | hj
    · exact List.mem_append_left _ (h.closed j hj k hk hc)
    · obtain rfl := List.mem_singleton.mp hj
      exact List.mem_append_left _ (hpred k hk hc)
  · rw [List.pairwise_append]
    refine ⟨h.keeps, List.pairwise_singleton _ i, fun d hd j hj hc => ?_⟩
    obtain rfl := List.mem_singleton.mp hj
    rcases Nat.lt_trichotomy d j with hdj | rfl | hjd
    · exact hdj
    · exact absurd hd hnot
    · exact absurd (h.closed d hd j hjd (hsymm _ _ hc)) hnot
  · rw [List.map_append, List.map_singleton, exec_snoc, h.state]

/-- **Run.** -/
theorem run_inv (hsymm : ∀ a b, conflict a b → conflict b a) {tr : List (Call op Nat)}
    (h : (machine execute conflict s₀).run tr = some s) : Inv execute conflict s₀ s := by
  refine Machine.run_induction (P := fun _ s => Inv execute conflict s₀ s) ?_ ?_ h
  · exact ⟨fun i hi => absurd hi List.not_mem_nil, List.nodup_nil,
      fun i hi => absurd hi List.not_mem_nil, List.Pairwise.nil, rfl⟩
  · intro tr s l s' _ ih hl
    cases l with
    | spawn b =>
      simp only [machine, step, Option.some.injEq] at hl
      subst hl
      exact ih.spawn b
    | work i =>
      simp only [machine, step, Option.ite_none_right_eq_some, Option.some.injEq] at hl
      obtain ⟨hr, rfl⟩ := hl
      exact ih.run hsymm hr

theorem spawned_eq {tr : List (Call op Nat)}
    (h : (machine execute conflict s₀).run tr = some s) : s.spawned = Call.spawned tr := by
  refine Machine.run_induction (P := fun tr s => s.spawned = Call.spawned tr) rfl ?_ h
  intro tr s l s' _ ih hl
  rw [Call.spawned_append, ← ih]
  cases l with
  | spawn b =>
    simp only [machine, step, Option.some.injEq] at hl
    subst hl
    rfl
  | work i =>
    simp only [machine, step, Option.ite_none_right_eq_some, Option.some.injEq] at hl
    obtain ⟨-, rfl⟩ := hl
    exact (List.append_nil _).symm

/-! ## Serial execution -/

omit [DecidableRel conflict] in
theorem Inv.perm (h : Inv execute conflict s₀ s) : s.done.Perm s.finished := by
  refine (List.perm_ext_iff_of_nodup h.nodup (List.nodup_range.filter _)).mpr ?_
  intro i
  rw [List.mem_filter, List.mem_range, decide_eq_true_eq]
  exact ⟨fun hi => ⟨h.done_lt i hi, hi⟩, fun hi => hi.2⟩

omit [DecidableRel conflict] in
/-- **The behaviours that are done have been run in spawn order**, as far as the state
shows. -/
theorem Inv.state_eq {Ok : σ → List op → Prop} (hc : Commutes execute conflict Ok)
    (h : Inv execute conflict s₀ s) (hok : Ok s₀ (s.finished.map (opAt s.spawned))) :
    s.state = exec execute (s.finished.map (opAt s.spawned)) s₀ := by
  rw [h.state]
  exact hc.exec_sort (opAt s.spawned) (List.pairwise_lt_range.filter _) h.perm h.keeps s₀
    (hc.ok_perm (h.perm.map _).symm hok)

omit [Inhabited op] [DecidableRel conflict] in
theorem finished_of_allDone (h : s.AllDone) :
    s.finished = List.range s.spawned.length := by
  rw [finished, List.filter_eq_self]
  intro i hi
  rw [decide_eq_true_eq]
  exact h i (List.mem_range.mp hi)

omit [DecidableRel conflict] in
/-- What is done is a part of what was spawned, in the same order. -/
theorem finished_sublist (s : Behaviours op σ) :
    (s.finished.map (opAt s.spawned)).Sublist s.spawned := by
  have hsub : (s.finished.map (opAt s.spawned)).Sublist
      ((List.range s.spawned.length).map (opAt s.spawned)) := List.filter_sublist.map _
  rwa [map_opAt_range] at hsub

omit [DecidableRel conflict] in
theorem map_finished_of_allDone (h : s.AllDone) :
    s.finished.map (opAt s.spawned) = s.spawned := by
  rw [finished_of_allDone h, map_opAt_range]

omit [DecidableRel conflict] in
/-- **Behaviours that all conflict are run in spawn order, and none is left out.** -/
theorem Inv.isPrefix_filter (h : Inv execute conflict s₀ s) {p : op → Bool}
    (hp : ∀ a b, p a → p b → conflict a b) :
    (s.done.map (opAt s.spawned)).filter p <+: s.spawned.filter p := by
  have hall : s.spawned.filter p =
      ((List.range s.spawned.length).filter (p ∘ opAt s.spawned)).map (opAt s.spawned) := by
    rw [← List.filter_map, map_opAt_range]
  rw [hall, List.filter_map]
  refine (isPrefix_of_closed ?_ (List.pairwise_lt_range.filter _) ?_ ?_).map _
  · rw [List.pairwise_filter]
    exact h.keeps.imp fun hij hi hj => hij (hp _ _ hi hj)
  · intro i hi
    rw [List.mem_filter] at hi ⊢
    exact ⟨List.mem_range.mpr (h.done_lt i hi.1), hi.2⟩
  · intro i hi j hj hji
    rw [List.mem_filter] at hi hj ⊢
    exact ⟨h.closed i hi.1 j hji (hp _ _ hj.2 hi.2), hj.2⟩

/-! ## The rest can be run -/

omit [DecidableRel conflict] in
/-- The first behaviour that is not done can be run. -/
theorem exists_runnable (h : ¬ s.AllDone) : ∃ i, s.Runnable conflict i := by
  simp only [AllDone, not_forall] at h
  obtain ⟨i, hi, hn⟩ := h
  obtain ⟨i, hlt, hnot, hleast⟩ := exists_least ⟨i, hi, hn⟩
  exact ⟨i, hlt, hnot, fun j hj _ => hleast j hj⟩

omit [DecidableRel conflict] in
theorem Inv.length_done (h : Inv execute conflict s₀ s) : s.done.length ≤ s.spawned.length := by
  have hlen := h.perm.length_eq
  have hle := List.length_filter_le (fun i => decide (i ∈ s.done)) (List.range s.spawned.length)
  rw [List.length_range] at hle
  rw [hlen]
  exact hle

theorem Inv.completes_aux (hsymm : ∀ a b, conflict a b → conflict b a) (k : Nat)
    (h : Inv execute conflict s₀ s) (hk : s.spawned.length ≤ k + s.done.length) :
    ∃ (is : List Nat) (s' : Behaviours op σ),
      (machine execute conflict s₀).runFrom s (is.map Call.work) = some s' ∧
      s'.spawned = s.spawned ∧ s'.AllDone := by
  induction k generalizing s with
  | zero =>
    refine ⟨[], s, rfl, rfl, ?_⟩
    by_contra hn
    obtain ⟨i, hi⟩ : ∃ i, s.Runnable conflict i := exists_runnable hn
    have hle := (h.run hsymm hi).length_done
    simp only [List.length_append, List.length_singleton] at hle
    omega
  | succ k ih =>
    by_cases hall : s.AllDone
    · exact ⟨[], s, rfl, rfl, hall⟩
    · obtain ⟨i, hi⟩ : ∃ i, s.Runnable conflict i := exists_runnable hall
      obtain ⟨is, s', hrun, hspawned, hdone⟩ := ih (h.run hsymm hi)
        (by simp only [List.length_append, List.length_singleton]; omega)
      refine ⟨i :: is, s', ?_, hspawned, hdone⟩
      exact Machine.runFrom_cons_of (if_pos hi) hrun

/-- **The rest can be run**: a run never gets stuck before everything is done. -/
theorem Inv.completes (hsymm : ∀ a b, conflict a b → conflict b a)
    (h : Inv execute conflict s₀ s) :
    ∃ (is : List Nat) (s' : Behaviours op σ),
      (machine execute conflict s₀).runFrom s (is.map Call.work) = some s' ∧
      s'.spawned = s.spawned ∧ s'.AllDone :=
  h.completes_aux hsymm s.spawned.length (Nat.le_add_right _ _)

end

end Behaviours

end Lib
