import Mathlib.Logic.Function.Basic
import Doradd.Lib.Behaviours
import Doradd.Lib.Footprint

/-!
# Bodies that run side by side

The bodies of behaviours go through their work in small steps on one store, and the steps
of different bodies interleave.  A body starts when those that were spawned before it and
share a cown with it have finished, and it touches its own cowns only.

* `simulates`: as far as the store shows, every body runs as a whole at the moment at
  which it finishes;
* `store_eq`: the cowns that no body is working on have the values of a serial run of the
  bodies that are finished;
* `completes`: whatever is under way, everything can be finished.
-/

namespace Lib

/-- Local variables and the store. -/
abbrev BodyState (loc κ ν : Type) : Type := loc × (κ → ν)

/-- The same local variables, and the same values of the keys in `K`. -/
structure AgreeOn {loc κ ν : Type} (K : List κ) (x y : BodyState loc κ ν) : Prop where
  locals : x.1 = y.1
  store : ∀ k ∈ K, x.2 k = y.2 k

/-- Behaviours with the cowns that they acquire and the steps of their bodies, each of
which reads and writes these cowns only. -/
structure Bodies (op loc act κ ν : Type) where
  cowns : op → List κ
  start : op → loc
  acts : op → List act
  act : act → BodyState loc κ ν → BodyState loc κ ν
  frame : ∀ {b a}, a ∈ acts b → ∀ x, ∀ k ∉ cowns b, (act a x).2 k = x.2 k
  reads : ∀ {b a}, a ∈ acts b → ∀ {x y}, AgreeOn (cowns b) x y →
    AgreeOn (cowns b) (act a x) (act a y)

namespace Bodies

variable {op loc act κ ν : Type} (P : Bodies op loc act κ ν)

/-- Some steps of a body. -/
def runActs (as : List act) (x : BodyState loc κ ν) : BodyState loc κ ν :=
  as.foldl (fun x a => P.act a x) x

/-- A body from beginning to end. -/
def execute (b : op) (s : κ → ν) : κ → ν := (P.runActs (P.acts b) (P.start b, s)).2

/-- Two behaviours share a cown. -/
def Conflict (a b : op) : Prop := ∃ k ∈ P.cowns a, k ∈ P.cowns b

instance [DecidableEq κ] : DecidableRel P.Conflict := fun a b =>
  inferInstanceAs (Decidable (∃ k ∈ P.cowns a, k ∈ P.cowns b))

variable {P}

theorem Conflict.symm {a b : op} (h : P.Conflict a b) : P.Conflict b a := by
  obtain ⟨k, ha, hb⟩ := h
  exact ⟨k, hb, ha⟩

/-! ## What bodies touch -/

theorem runActs_frame {b : op} {as : List act} (h : ∀ a ∈ as, a ∈ P.acts b)
    (x : BodyState loc κ ν) {k : κ} (hk : k ∉ P.cowns b) : (P.runActs as x).2 k = x.2 k := by
  induction as generalizing x with
  | nil => rfl
  | cons a as ih =>
    have hrest := ih (fun c hc => h c (List.mem_cons_of_mem a hc)) (P.act a x)
    exact hrest.trans (P.frame (h a List.mem_cons_self) x k hk)

theorem runActs_reads {b : op} {as : List act} (h : ∀ a ∈ as, a ∈ P.acts b)
    {x y : BodyState loc κ ν} (hxy : AgreeOn (P.cowns b) x y) :
    AgreeOn (P.cowns b) (P.runActs as x) (P.runActs as y) := by
  induction as generalizing x y with
  | nil => exact hxy
  | cons a as ih =>
    exact ih (fun c hc => h c (List.mem_cons_of_mem a hc))
      (P.reads (h a List.mem_cons_self) hxy)

theorem runActs_snoc (as : List act) (a : act) (x : BodyState loc κ ν) :
    P.runActs (as ++ [a]) x = P.act a (P.runActs as x) := List.foldl_concat _ _ _ _

theorem execute_frame (b : op) (s : κ → ν) {k : κ} (hk : k ∉ P.cowns b) :
    P.execute b s k = s k :=
  runActs_frame (fun _ ha => ha) (P.start b, s) hk

/-- **Footprint of a body.** -/
theorem execute_localOn (b : op) :
    LocalOn (fun s : κ → ν => s) { k | k ∈ P.cowns b } fun s s' => P.execute b s = s' where
  frame := by
    rintro s _ rfl k hk
    exact execute_frame b s hk
  reads := by
    rintro s s' _ _ rfl rfl he
    have hstart : AgreeOn (P.cowns b) (P.start b, s) (P.start b, s') := ⟨rfl, he⟩
    exact (runActs_reads (fun _ ha => ha) hstart).store

/-- **Bodies that share no cown commute.** -/
theorem commutes (P : Bodies op loc act κ ν) :
    Commutes P.execute P.Conflict fun _ _ => True where
  ok_perm := fun _ _ => trivial
  ok_step := fun _ => trivial
  comm := by
    intro s a b _ _ hc
    refine (execute_localOn a).comm (execute_localOn b) ?_ rfl rfl rfl rfl
    rw [Set.disjoint_left]
    intro k ha hb
    exact hc ⟨k, ha, hb⟩

end Bodies

/-! ## Threads -/

/-- What the workers do. -/
inductive Work
  | start (i : Nat)
  | act (i : Nat)
  | finish (i : Nat)

/-- Bodies under way: what they were handed, which are finished, the local variables and
the remaining steps of those that are running, and the store. -/
structure Threads (op loc act κ ν : Type) where
  spawned : List op
  done : List Nat
  running : Nat → Option (loc × List act)
  store : κ → ν

namespace Threads

variable {op loc act κ ν : Type} [Inhabited op] (P : Bodies op loc act κ ν)

/-- A body may start when those before it that share a cown with it are finished. -/
def CanStart (t : Threads op loc act κ ν) (i : Nat) : Prop :=
  t.running i = none ∧ i < t.spawned.length ∧ i ∉ t.done ∧
    ∀ j < i, P.Conflict (opAt t.spawned j) (opAt t.spawned i) → j ∈ t.done

section

variable [DecidableEq κ]

instance (t : Threads op loc act κ ν) (i : Nat) : Decidable (t.CanStart P i) :=
  have : Decidable (t.running i = none) := decidable_of_iff _ Option.isNone_iff_eq_none
  inferInstanceAs (Decidable (_ ∧ _ ∧ _ ∧ _))

def step (t : Threads op loc act κ ν) : Call op Work → Option (Threads op loc act κ ν)
  | .spawn b => some { t with spawned := t.spawned ++ [b] }
  | .work (.start i) =>
    if t.CanStart P i then
      let b := opAt t.spawned i
      some { t with running := Function.update t.running i (some (P.start b, P.acts b)) }
    else none
  | .work (.act i) =>
    match t.running i with
    | some (l, a :: as) =>
      let x := P.act a (l, t.store)
      some { t with running := Function.update t.running i (some (x.1, as)), store := x.2 }
    | _ => none
  | .work (.finish i) =>
    match t.running i with
    | some (_, []) =>
      some { t with running := Function.update t.running i none, done := t.done ++ [i] }
    | _ => none

def machine (s₀ : κ → ν) : Machine (Threads op loc act κ ν) (Call op Work) :=
  ⟨⟨[], [], fun _ => none, s₀⟩, step P⟩

end

/-- A body counts as run when it finishes. -/
def commit : Call op Work → Option (Call op Nat)
  | .spawn b => some (.spawn b)
  | .work (.finish i) => some (.work i)
  | .work _ => none

/-! ## Simulation -/

/-- A running body against the state of the bodies that are finished: it may run, and what
it has done so far is what it does on that state. -/
structure Active (t : Threads op loc act κ ν) (s : Behaviours op (κ → ν)) (i : Nat)
    (r : loc × List act) : Prop where
  runnable : s.Runnable P.Conflict i
  progress : ∃ pre, P.acts (opAt s.spawned i) = pre ++ r.2 ∧
    AgreeOn (P.cowns (opAt s.spawned i)) (r.1, t.store)
      (P.runActs pre (P.start (opAt s.spawned i), s.state))

/-- Threads against whole bodies: the running ones have not changed the state yet. -/
structure Simulates (t : Threads op loc act κ ν) (s : Behaviours op (κ → ν)) : Prop where
  spawned : s.spawned = t.spawned
  done : s.done = t.done
  active : ∀ i r, t.running i = some r → t.Active P s i r
  idle : ∀ k, (∀ i r, t.running i = some r → k ∉ P.cowns (opAt s.spawned i)) →
    t.store k = s.state k

variable {P} {t : Threads op loc act κ ν} {s : Behaviours op (κ → ν)}

/-- Two behaviours that may both run share no cown. -/
theorem not_conflict_of_runnable {i j : Nat} (hi : s.Runnable P.Conflict i)
    (hj : s.Runnable P.Conflict j) (hne : i ≠ j) :
    ¬ P.Conflict (opAt s.spawned i) (opAt s.spawned j) := by
  intro hc
  rcases Nat.lt_or_gt_of_ne hne with hlt | hgt
  · exact hi.2.1 (hj.2.2 i hlt hc)
  · exact hj.2.1 (hi.2.2 j hgt hc.symm)

/-- Handing over more changes nothing for those that are there. -/
theorem Simulates.spawn (h : t.Simulates P s) (b : op) :
    Simulates P { t with spawned := t.spawned ++ [b] } { s with spawned := s.spawned ++ [b] } := by
  have hat : ∀ i r, t.running i = some r → ∀ j ≤ i,
      opAt (s.spawned ++ [b]) j = opAt s.spawned j := by
    intro i r hr j hj
    have hlt := (h.active i r hr).runnable.1
    exact opAt_append (by omega) [b]
  refine ⟨?_, h.done, fun i r hr => ?_, fun k hk => h.idle k fun i r hr => ?_⟩
  · rw [h.spawned]
  · obtain ⟨⟨hlt, hnot, hpred⟩, pre, hpre, hagree⟩ := h.active i r hr
    refine ⟨⟨?_, hnot, fun j hj => ?_⟩, pre, ?_⟩
    · rw [List.length_append]
      omega
    · rw [hat i r hr i (Nat.le_refl i), hat i r hr j (Nat.le_of_lt hj)]
      exact hpred j hj
    · rw [hat i r hr i (Nat.le_refl i)]
      exact ⟨hpre, hagree⟩
  · have := hk i r hr
    rwa [hat i r hr i (Nat.le_refl i)] at this

omit [Inhabited op] in
theorem running_update {i j : Nat} {r r' : Option (loc × List act)} (hj : j ≠ i)
    (h : Function.update t.running i r j = r') : t.running j = r' := by
  rwa [Function.update_of_ne hj] at h

/-- A body that starts finds its cowns as the finished bodies left them. -/
theorem Simulates.start (h : t.Simulates P s) {i : Nat} (hi : t.CanStart P i) :
    Simulates P { t with
      running := Function.update t.running i
        (some (P.start (opAt t.spawned i), P.acts (opAt t.spawned i))) } s := by
  obtain ⟨hnone, hlt, hnot, hpred⟩ := hi
  rw [← h.spawned] at hlt hpred ⊢
  rw [← h.done] at hnot hpred
  have hrun : s.Runnable P.Conflict i := ⟨hlt, hnot, hpred⟩
  refine ⟨rfl, h.done, fun j r hr => ?_, fun k hk => h.idle k fun j r hr => ?_⟩
  · by_cases hji : j = i
    · subst hji
      simp only [Function.update_self, Option.some.injEq] at hr
      subst hr
      refine ⟨hrun, [], rfl, rfl, fun k hk => h.idle k fun l r hr hl => ?_⟩
      have hne : l ≠ j := by
        rintro rfl
        rw [hnone] at hr
        cases hr
      exact not_conflict_of_runnable (h.active l r hr).runnable hrun hne ⟨k, hl, hk⟩
    · obtain ⟨hrun', hprog⟩ := h.active j r (running_update hji hr)
      exact ⟨hrun', hprog⟩
  · refine hk j r ?_
    have hji : j ≠ i := by
      rintro rfl
      rw [hnone] at hr
      cases hr
    exact (Function.update_of_ne hji _ _).trans hr

/-- A step of one body is nothing to the others. -/
theorem Simulates.work (h : t.Simulates P s) {i : Nat} {l : loc} {a : act} {as : List act}
    (hi : t.running i = some (l, a :: as)) :
    Simulates P { t with
      running := Function.update t.running i (some ((P.act a (l, t.store)).1, as))
      store := (P.act a (l, t.store)).2 } s := by
  obtain ⟨hrun, pre, hpre, hagree⟩ := h.active i _ hi
  have hmem : a ∈ P.acts (opAt s.spawned i) := by
    rw [hpre]
    exact List.mem_append_right _ List.mem_cons_self
  refine ⟨h.spawned, h.done, fun j r hr => ?_, fun k hk => ?_⟩
  · by_cases hji : j = i
    · subst hji
      simp only [Function.update_self, Option.some.injEq] at hr
      subst hr
      refine ⟨hrun, pre ++ [a], ?_, ?_⟩
      · rw [hpre, List.append_assoc]
        rfl
      · rw [Bodies.runActs_snoc]
        exact P.reads hmem hagree
    · obtain ⟨hrun', pre', hpre', hagree'⟩ := h.active j r (running_update hji hr)
      refine ⟨hrun', pre', hpre', hagree'.locals, fun k hk => ?_⟩
      rw [← hagree'.store k hk]
      refine P.frame hmem _ k fun hki => ?_
      exact not_conflict_of_runnable hrun hrun' (Ne.symm hji) ⟨k, hki, hk⟩
  · have hki := hk i _ (Function.update_self _ _ _)
    rw [← h.idle k fun j r hr => ?_]
    · exact P.frame hmem _ k hki
    · by_cases hji : j = i
      · rw [hji]
        exact hki
      · exact hk j r ((Function.update_of_ne hji _ _).trans hr)

/-- A body that finishes has done all of its work on the state that the others left. -/
theorem Simulates.finish (h : t.Simulates P s) {i : Nat} {l : loc}
    (hi : t.running i = some (l, [])) :
    s.Runnable P.Conflict i ∧
      Simulates P { t with
        running := Function.update t.running i none
        done := t.done ++ [i] }
        { s with done := s.done ++ [i], state := P.execute (opAt s.spawned i) s.state } := by
  obtain ⟨hrun, pre, hpre, hagree⟩ := h.active i _ hi
  rw [List.append_nil] at hpre
  subst hpre
  have hne : ∀ {j r}, Function.update t.running i none j = some r → j ≠ i := by
    rintro j r hr rfl
    rw [Function.update_self] at hr
    cases hr
  refine ⟨hrun, h.spawned, ?_, fun j r hr => ?_, fun k hk => ?_⟩
  · rw [h.done]
  · obtain ⟨hrun', pre', hpre', hagree'⟩ := h.active j r (running_update (hne hr) hr)
    have hapart := not_conflict_of_runnable hrun hrun' (Ne.symm (hne hr))
    refine ⟨⟨hrun'.1, fun hmem => ?_, fun k hk hc => ?_⟩, pre', hpre', ?_⟩
    · rcases List.mem_append.mp hmem with hmem | hmem
      · exact hrun'.2.1 hmem
      · exact hne hr (List.mem_singleton.mp hmem)
    · exact List.mem_append_left _ (hrun'.2.2 k hk hc)
    · have hsame : AgreeOn (P.cowns (opAt s.spawned j))
          (P.start (opAt s.spawned j), s.state)
          (P.start (opAt s.spawned j), P.execute (opAt s.spawned i) s.state) :=
        ⟨rfl, fun k hk => (Bodies.execute_frame _ _ fun hki => hapart ⟨k, hki, hk⟩).symm⟩
      have hreads := Bodies.runActs_reads
        (fun c (hc : c ∈ pre') => hpre' ▸ List.mem_append_left _ hc) hsame
      exact ⟨hagree'.locals.trans hreads.locals, fun k hk =>
        (hagree'.store k hk).trans (hreads.store k hk)⟩
  · by_cases hki : k ∈ P.cowns (opAt s.spawned i)
    · exact hagree.store k hki
    · refine (h.idle k fun j r hr => ?_).trans (Bodies.execute_frame _ _ hki).symm
      by_cases hji : j = i
      · rw [hji]
        exact hki
      · exact hk j r ((Function.update_of_ne hji _ _).trans hr)

/-! ## Runs -/

variable [DecidableEq κ] {s₀ : κ → ν} {tr : List (Call op Work)}

theorem step_act {i : Nat} {t' : Threads op loc act κ ν} :
    step P t (.work (.act i)) = some t' ↔ ∃ l a as, t.running i = some (l, a :: as) ∧
      { t with
        running := Function.update t.running i (some ((P.act a (l, t.store)).1, as))
        store := (P.act a (l, t.store)).2 } = t' := by
  simp only [step]
  rcases t.running i with _ | ⟨l, _ | ⟨a, as⟩⟩ <;> simp

theorem step_finish {i : Nat} {t' : Threads op loc act κ ν} :
    step P t (.work (.finish i)) = some t' ↔ ∃ l, t.running i = some (l, []) ∧
      { t with
        running := Function.update t.running i none
        done := t.done ++ [i] } = t' := by
  simp only [step]
  rcases t.running i with _ | ⟨l, _ | ⟨a, as⟩⟩ <;> simp

/-- **Refinement**: a run of the threads is a run of whole bodies. -/
theorem simulates (h : (machine P s₀).run tr = some t) :
    ∃ s, (Behaviours.machine P.execute P.Conflict s₀).run (tr.filterMap commit) = some s ∧
      t.Simulates P s := by
  refine Machine.run_induction (P := fun tr t => ∃ s,
    (Behaviours.machine P.execute P.Conflict s₀).run (tr.filterMap commit) = some s ∧
      Simulates P t s) ?_ ?_ h
  · exact ⟨_, rfl, rfl, rfl, fun i r hr => (nomatch hr), fun k _ => rfl⟩
  · rintro tr t l t' _ ⟨s, hs, hsim⟩ hl
    rw [List.filterMap_append]
    cases l with
    | spawn b =>
      simp only [machine, step, Option.some.injEq] at hl
      subst hl
      exact ⟨_, ((Behaviours.machine _ _ s₀).run_snoc _ _ _).mpr ⟨s, hs, rfl⟩, hsim.spawn b⟩
    | work w =>
      cases w with
      | start i =>
        simp only [machine, step, Option.ite_none_right_eq_some, Option.some.injEq] at hl
        obtain ⟨hi, rfl⟩ := hl
        exact ⟨s, (List.append_nil (tr.filterMap commit)).symm ▸ hs, hsim.start hi⟩
      | act i =>
        obtain ⟨l, a, as, hi, rfl⟩ := (step_act (P := P)).mp hl
        exact ⟨s, (List.append_nil (tr.filterMap commit)).symm ▸ hs, hsim.work hi⟩
      | finish i =>
        obtain ⟨l, hi, rfl⟩ := (step_finish (P := P)).mp hl
        obtain ⟨hrun, hsim'⟩ := hsim.finish hi
        exact ⟨_, ((Behaviours.machine _ _ s₀).run_snoc _ _ _).mpr ⟨s, hs, if_pos hrun⟩, hsim'⟩

theorem spawned_eq (h : (machine P s₀).run tr = some t) : t.spawned = Call.spawned tr := by
  obtain ⟨s, hs, hsim⟩ := simulates h
  rw [← hsim.spawned, Behaviours.spawned_eq hs, Call.spawned, Call.spawned,
    List.filterMap_filterMap]
  congr 1
  funext l
  rcases l with b | (_ | _ | _) <;> rfl

/-- The positions that are finished, in spawn order. -/
def finished (t : Threads op loc act κ ν) : List Nat :=
  (List.range t.spawned.length).filter fun i => i ∈ t.done

/-- **Cowns that no body is working on** have the values of a serial run. -/
theorem store_eq (h : (machine P s₀).run tr = some t) {k : κ}
    (hk : ∀ i r, t.running i = some r → k ∉ P.cowns (opAt t.spawned i)) :
    t.store k = exec P.execute (t.finished.map (opAt t.spawned)) s₀ k := by
  obtain ⟨s, hs, hsim⟩ := simulates h
  have hstate := (Behaviours.run_inv (fun _ _ => Bodies.Conflict.symm) hs).state_eq
    P.commutes trivial
  rw [Behaviours.finished, hsim.spawned, hsim.done] at hstate
  rw [finished, ← hstate]
  exact hsim.idle k (by rwa [hsim.spawned])

/-! ## Everything can be finished -/

/-- Everything that was spawned is finished, and nothing is running. -/
structure AllDone (t : Threads op loc act κ ν) : Prop where
  finished : ∀ i < t.spawned.length, i ∈ t.done
  idle : ∀ i, t.running i = none

theorem allDone_of_finished (h : (machine P s₀).run tr = some t)
    (hall : ∀ i < t.spawned.length, i ∈ t.done) : t.AllDone := by
  refine ⟨hall, fun i => ?_⟩
  obtain ⟨s, -, hsim⟩ := simulates h
  cases hr : t.running i with
  | none => rfl
  | some r =>
    obtain ⟨hlt, hnot, -⟩ := (hsim.active i r hr).runnable
    rw [hsim.spawned] at hlt
    rw [hsim.done] at hnot
    exact absurd (hall i hlt) hnot

/-- All of the work is done in spawn order. -/
theorem store_eq_all (h : (machine P s₀).run tr = some t) (hall : t.AllDone) :
    t.store = exec P.execute t.spawned s₀ := by
  have hfinished : t.finished = List.range t.spawned.length := by
    rw [finished, List.filter_eq_self]
    intro i hi
    rw [decide_eq_true_eq]
    exact hall.finished i (List.mem_range.mp hi)
  funext k
  rw [store_eq h fun i r hr => absurd (hr.symm.trans (hall.idle i)) (Option.some_ne_none r),
    hfinished, map_opAt_range]

variable (P s₀) in
/-- A running body can be finished without the others. -/
theorem finish_running {i : Nat} {as : List act} {l : loc} (hi : t.running i = some (l, as)) :
    ∃ (ws : List Work) (t' : Threads op loc act κ ν),
      (machine P s₀).runFrom t (ws.map Call.work) = some t' ∧ t'.spawned = t.spawned ∧
        t'.done = t.done ++ [i] := by
  induction as generalizing l t with
  | nil =>
    have hstep := (step_finish (P := P)).mpr ⟨l, hi, rfl⟩
    exact ⟨[.finish i], _, Machine.runFrom_cons_of hstep rfl, rfl, rfl⟩
  | cons a as ih =>
    obtain ⟨ws, t', hrun, hspawned, hdone⟩ := ih (t := { t with
      running := Function.update t.running i (some ((P.act a (l, t.store)).1, as))
      store := (P.act a (l, t.store)).2 }) (Function.update_self _ _ _)
    have hstep := (step_act (P := P)).mpr ⟨l, a, as, hi, rfl⟩
    exact ⟨.act i :: ws, t', Machine.runFrom_cons_of hstep hrun, hspawned, hdone⟩

variable (P s₀) in
/-- The first body that is not finished can be, whether it is running or not. -/
theorem finish_least (h : ∃ i < t.spawned.length, i ∉ t.done) :
    ∃ (i : Nat) (ws : List Work) (t' : Threads op loc act κ ν),
      (machine P s₀).runFrom t (ws.map Call.work) = some t' ∧ t'.spawned = t.spawned ∧
        t'.done = t.done ++ [i] := by
  obtain ⟨i, hlt, hnot, hleast⟩ := exists_least h
  refine ⟨i, ?_⟩
  cases hr : t.running i with
  | some r => exact finish_running P s₀ hr
  | none =>
    have hcan : t.CanStart P i := ⟨hr, hlt, hnot, fun j hj _ => hleast j hj⟩
    obtain ⟨ws, t', hrun, hspawned, hdone⟩ := finish_running P s₀ (t := { t with
      running := Function.update t.running i
        (some (P.start (opAt t.spawned i), P.acts (opAt t.spawned i))) })
      (Function.update_self _ _ _)
    exact ⟨.start i :: ws, t', Machine.runFrom_cons_of (if_pos hcan) hrun, hspawned, hdone⟩

theorem length_done (h : (machine P s₀).run tr = some t) :
    t.done.length ≤ t.spawned.length := by
  obtain ⟨s, hs, hsim⟩ := simulates h
  rw [← hsim.done, ← hsim.spawned]
  exact (Behaviours.run_inv (fun _ _ => Bodies.Conflict.symm) hs).length_done

theorem completes_aux (k : Nat) (h : (machine P s₀).run tr = some t)
    (hk : t.spawned.length ≤ k + t.done.length) :
    ∃ (ws : List Work) (t' : Threads op loc act κ ν),
      (machine P s₀).runFrom t (ws.map Call.work) = some t' ∧ t'.spawned = t.spawned ∧
        t'.AllDone := by
  induction k generalizing tr t with
  | zero =>
    refine ⟨[], t, rfl, rfl, allDone_of_finished h fun i hi => ?_⟩
    by_contra hn
    obtain ⟨j, ws, t', hrun, hspawned, hdone⟩ := finish_least P s₀ ⟨i, hi, hn⟩
    have hle := length_done (Machine.runFrom_append_of h hrun)
    rw [hspawned, hdone, List.length_append, List.length_singleton] at hle
    omega
  | succ k ih =>
    by_cases hall : ∀ i < t.spawned.length, i ∈ t.done
    · exact ⟨[], t, rfl, rfl, allDone_of_finished h hall⟩
    · simp only [not_forall] at hall
      obtain ⟨i, hi, hn⟩ := hall
      obtain ⟨j, ws, t', hrun, hspawned, hdone⟩ := finish_least P s₀ ⟨i, hi, hn⟩
      obtain ⟨ws', t'', hrun', hspawned', hall⟩ := ih (Machine.runFrom_append_of h hrun)
        (by rw [hspawned, hdone, List.length_append, List.length_singleton]; omega)
      refine ⟨ws ++ ws', t'', ?_, hspawned'.trans hspawned, hall⟩
      rw [List.map_append]
      exact Machine.runFrom_append_of hrun hrun'

/-- **Everything can be finished**: a run never gets stuck before that. -/
theorem completes (h : (machine P s₀).run tr = some t) :
    ∃ (ws : List Work) (t' : Threads op loc act κ ν),
      (machine P s₀).runFrom t (ws.map Call.work) = some t' ∧ t'.spawned = t.spawned ∧
        t'.AllDone :=
  completes_aux t.spawned.length h (Nat.le_add_right _ _)

end Threads

end Lib
