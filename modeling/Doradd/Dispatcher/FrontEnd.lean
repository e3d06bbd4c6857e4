import Doradd.Lib.Behaviours
import Doradd.Dispatcher.Log

/-!
# The front end, the mapped log and the runtime

Some threads write the pointers of a record into the mapped log, read the record from there
and hand its behaviours to the runtime, whose workers run them while these threads go on.
A body may still read the record when it is run.

* `front_run`, `mem_eq`: the front end is not disturbed, and the log is changed by it only;
* `runtime_run`: if records of the log are dispatched, each after it was prepared, the
  runtime is handed their behaviours, as they are when their pointers are resolved, and runs
  them as if nothing was written to the log.
-/

namespace Doradd

open Lib

/-- What the dispatcher calls of an application: `prepare_cowns` on a record of the
mapped log, and `parse_and_process`, with the behaviours that it spawns. -/
structure App (op : Type) where
  prepareCowns : List UInt8 → Nat → List UInt8
  parseAndProcess : List UInt8 → Nat → List op

/-- The threads that feed the runtime, and the records on which their steps call
`prepare_cowns` and `parse_and_process`. -/
structure FrontEnd (φ flab : Type) where
  machine : Machine φ flab
  prepares : flab → Option Nat
  dispatches : flab → Option Nat

namespace FrontEnd

section

variable {φ flab : Type} (F : FrontEnd φ flab)

def prepared (tr : List flab) : List Nat := tr.filterMap F.prepares

def dispatched (tr : List flab) : List Nat := tr.filterMap F.dispatches

/-- Records of the log are prepared; the records `es` were dispatched, each of them after
it was prepared. -/
structure Serves (log : Log) (es : List Nat) (tr : List flab) : Prop where
  dispatched : F.dispatched tr = es.map log.record
  inside : ∀ k ∈ es, k < log.readCount
  prepared : ∃ ks : List Nat, (∀ k ∈ ks, k < log.readCount) ∧ F.prepared tr = ks.map log.record
  first : ∀ pre l post a, tr = pre ++ l :: post → F.dispatches l = some a →
    a ∈ F.prepared pre

end

variable {φ flab : Type} {F : FrontEnd φ flab} {log : Log} {es : List Nat} {tr tr' : List flab}

theorem prepared_append (tr tr' : List flab) :
    F.prepared (tr ++ tr') = F.prepared tr ++ F.prepared tr' := List.filterMap_append

theorem dispatched_append (tr tr' : List flab) :
    F.dispatched (tr ++ tr') = F.dispatched tr ++ F.dispatched tr' := List.filterMap_append

theorem eq_map_of_isPrefix_map {α β : Type} {f : α → β} {xs : List α} {ys : List β}
    (h : ys <+: xs.map f) : ∃ zs, zs <+: xs ∧ ys = zs.map f := by
  refine ⟨xs.take ys.length, List.take_prefix _ _, ?_⟩
  rw [List.map_take]
  exact List.prefix_iff_eq_take.mp h

/-- What was served of a run was served of its beginning. -/
theorem Serves.of_append (h : F.Serves log es (tr ++ tr')) :
    ∃ es', es' <+: es ∧ F.Serves log es' tr := by
  have hdisp : F.dispatched tr <+: es.map log.record := by
    rw [← h.dispatched, dispatched_append]
    exact List.prefix_append _ _
  obtain ⟨es', hes, heq⟩ := eq_map_of_isPrefix_map hdisp
  obtain ⟨ks, hks, hprep⟩ := h.prepared
  have hpre : F.prepared tr <+: ks.map log.record := by
    rw [← hprep, prepared_append]
    exact List.prefix_append _ _
  obtain ⟨ks', hks', heq'⟩ := eq_map_of_isPrefix_map hpre
  refine ⟨es', hes, heq, fun k hk => h.inside k (hes.subset hk),
    ⟨ks', fun k hk => hks k (hks'.subset hk), heq'⟩, ?_⟩
  rintro pre l post a rfl hl
  exact h.first pre l (post ++ tr') a (by rw [List.append_assoc, List.cons_append]) hl

/-- The record of a dispatch, or none. -/
theorem Serves.snoc {l : flab} (h : F.Serves log es (tr ++ [l])) :
    ∃ es', F.Serves log es' tr ∧ ((F.dispatches l = none ∧ es = es') ∨
      ∃ k < log.readCount, F.dispatches l = some (log.record k) ∧ es = es' ++ [k] ∧
        log.record k ∈ F.prepared tr) := by
  obtain ⟨es', ⟨rest, rfl⟩, h'⟩ := h.of_append
  refine ⟨es', h', ?_⟩
  have hlast : F.dispatched [l] = rest.map log.record := by
    have hall := h.dispatched
    rw [dispatched_append, h'.dispatched, List.map_append] at hall
    exact List.append_cancel_left hall
  cases hl : F.dispatches l with
  | none =>
    rw [FrontEnd.dispatched, List.filterMap_cons_none hl, List.filterMap_nil] at hlast
    exact Or.inl ⟨rfl, by rw [List.map_eq_nil_iff.mp hlast.symm, List.append_nil]⟩
  | some a =>
    rw [FrontEnd.dispatched, List.filterMap_cons_some hl, List.filterMap_nil] at hlast
    obtain ⟨k, rfl, rfl⟩ := List.map_eq_singleton_iff.mp hlast.symm
    refine Or.inr ⟨k, h.inside k (List.mem_append_right _ List.mem_cons_self), rfl, rfl, ?_⟩
    exact h.first tr l [] _ rfl hl

end FrontEnd

/-- The front end, the mapped log and the runtime. -/
structure System (φ τ : Type) where
  front : φ
  mem : List UInt8
  runtime : τ

namespace System

/-- A thread of the front end or a worker of the runtime takes a step. -/
inductive Label (flab lab : Type)
  | thread (l : flab)
  | worker (l : lab)

/-- The steps of the front end in a run. -/
def threads {flab lab : Type} (tr : List (Label flab lab)) : List flab :=
  tr.filterMap fun
    | .thread l => some l
    | .worker _ => none

theorem threads_append {flab lab : Type} (tr tr' : List (Label flab lab)) :
    threads (tr ++ tr') = threads tr ++ threads tr' := List.filterMap_append

theorem threads_map_thread {flab lab : Type} (tr : List flab) :
    threads (tr.map (@Label.thread flab lab)) = tr := by
  rw [threads, List.filterMap_map]
  exact List.filterMap_some

theorem threads_map_worker {flab lab : Type} (ls : List lab) :
    threads (ls.map (@Label.worker flab lab)) = [] := by
  rw [threads, List.filterMap_map, List.filterMap_eq_nil_iff]
  exact fun _ _ => rfl

/-- The front end goes on, and then the workers. -/
def goOn {flab lab : Type} (ls : List flab) (ws : List lab) : List (Label flab lab) :=
  ls.map .thread ++ ws.map .worker

section

variable {φ flab op lab τ : Type} (F : FrontEnd φ flab) (app : App op)
  (M : List UInt8 → Machine τ (Call op lab))

/-- What a step of the front end does to the mapped log. -/
def memAfter (mem : List UInt8) (l : flab) : List UInt8 :=
  (F.prepares l).elim mem (app.prepareCowns mem)

/-- The behaviours that a step of the front end spawns. -/
def spawnedBy (mem : List UInt8) (l : flab) : List op :=
  (F.dispatches l).elim [] (app.parseAndProcess mem)

def step (s : System φ τ) : Label flab lab → Option (System φ τ)
  | .thread l => do
    let p ← F.machine.step s.front l
    let t ← (M s.mem).runFrom s.runtime ((spawnedBy F app s.mem l).map .spawn)
    return ⟨p, memAfter F app s.mem l, t⟩
  | .worker l => do
    let t ← (M s.mem).step s.runtime (.work l)
    return { s with runtime := t }

/-- The log is mapped, and nothing has been spawned; `M mem` is the runtime while `mem` is
in the log. -/
def machine (mem : List UInt8) : Machine (System φ τ) (Label flab lab) :=
  ⟨⟨F.machine.init, mem, (M mem).init⟩, step F app M⟩

/-- Calls of `prepare_cowns` on the records `ks`. -/
def prepareAll (log : Log) (ks : List Nat) (mem : List UInt8) : List UInt8 :=
  ks.foldl (fun mem k => app.prepareCowns mem (log.record k)) mem

/-- However the records were prepared, a record that was prepared spawns `spawns k`. -/
def Resolves (log : Log) (mem : List UInt8) (spawns : Nat → List op) : Prop :=
  ∀ ks : List Nat, (∀ k ∈ ks, k < log.readCount) → ∀ k ∈ ks,
    app.parseAndProcess (prepareAll app log ks mem) (log.record k) = spawns k

end

section

variable {φ flab op lab τ : Type} {F : FrontEnd φ flab} {app : App op}
  {M : List UInt8 → Machine τ (Call op lab)}
variable {mem : List UInt8} {tr : List (Label flab lab)} {s s' : System φ τ}

variable (F app M) in
theorem step_thread {l : flab} :
    step F app M s (.thread l) = some s' ↔ ∃ p, F.machine.step s.front l = some p ∧
      ∃ t, (M s.mem).runFrom s.runtime ((spawnedBy F app s.mem l).map .spawn) = some t ∧
        ⟨p, memAfter F app s.mem l, t⟩ = s' := by
  simp [step, Option.bind_eq_some_iff]

variable (F app M) in
theorem step_worker {l : lab} :
    step F app M s (.worker l) = some s' ↔
      ∃ t, (M s.mem).step s.runtime (.work l) = some t ∧ { s with runtime := t } = s' := by
  simp [step, Option.bind_eq_some_iff]

/-- **The front end is not disturbed.** -/
theorem front_run (h : (machine F app M mem).run tr = some s) :
    F.machine.run (threads tr) = some s.front := by
  refine Machine.run_project System.front _ rfl ?_ h
  intro tr s l s' _ hl
  cases l with
  | thread l => obtain ⟨p, hp, t, _, rfl⟩ := (step_thread F app M).mp hl; exact hp
  | worker l => obtain ⟨t, _, rfl⟩ := (step_worker F app M).mp hl; rfl

/-- **The log is changed by the front end only.** -/
theorem mem_eq (h : (machine F app M mem).run tr = some s) :
    s.mem = (F.prepared (threads tr)).foldl app.prepareCowns mem := by
  refine Machine.run_induction (P := fun tr s =>
    s.mem = (F.prepared (threads tr)).foldl app.prepareCowns mem) rfl ?_ h
  intro tr s l s' _ ih hl
  rw [threads_append, FrontEnd.prepared_append, List.foldl_append, ← ih]
  cases l with
  | thread l =>
    obtain ⟨p, _, t, _, rfl⟩ := (step_thread F app M).mp hl
    show memAfter F app s.mem l = _
    rw [memAfter, FrontEnd.prepared, threads]
    cases hl : F.prepares l with
    | none => simp [hl]
    | some a => simp [hl]
  | worker l => obtain ⟨t, _, rfl⟩ := (step_worker F app M).mp hl; rfl

/-- The workers go on by themselves. -/
theorem runFrom_worker {ls : List lab} {t : τ}
    (h : (M s.mem).runFrom s.runtime (ls.map .work) = some t) :
    (machine F app M mem).runFrom s (ls.map .worker) = some { s with runtime := t } := by
  induction ls generalizing s with
  | nil =>
    obtain rfl := Option.some.inj h
    rfl
  | cons l ls ih =>
    rw [List.map_cons, Machine.runFrom_cons, Option.bind_eq_some_iff] at h
    obtain ⟨u, hu, h⟩ := h
    exact Machine.runFrom_cons_of ((step_worker F app M).mpr ⟨u, hu, rfl⟩) (ih (s := ⟨_, _, u⟩) h)

section

variable (hspawn : ∀ m t b, ((M m).step t (.spawn b)).isSome)
include hspawn

variable (app mem) in
/-- The front end goes on by itself, and does not wait for the runtime. -/
theorem runFrom_thread {ls : List flab} {p : φ} (h : F.machine.runFrom s.front ls = some p) :
    ∃ s', (machine F app M mem).runFrom s (ls.map .thread) = some s' ∧ s'.front = p := by
  have hruns : ∀ m t (bs : List op), ∃ u, (M m).runFrom t (bs.map .spawn) = some u := by
    intro m t bs
    induction bs generalizing t with
    | nil => exact ⟨t, rfl⟩
    | cons b bs ih =>
      obtain ⟨v, hv⟩ := Option.isSome_iff_exists.mp (hspawn m t b)
      obtain ⟨u, hu⟩ := ih v
      exact ⟨u, Machine.runFrom_cons_of hv hu⟩
  induction ls generalizing s with
  | nil => exact ⟨s, rfl, Option.some.inj h⟩
  | cons l ls ih =>
    rw [Machine.runFrom_cons, Option.bind_eq_some_iff] at h
    obtain ⟨q, hq, h⟩ := h
    obtain ⟨u, hu⟩ := hruns s.mem s.runtime (spawnedBy F app s.mem l)
    obtain ⟨s', hs', hp⟩ := ih (s := ⟨q, memAfter F app s.mem l, u⟩) h
    exact ⟨s', Machine.runFrom_cons_of ((step_thread F app M).mpr ⟨q, hq, u, hu, rfl⟩) hs', hp⟩

variable (app mem) in
theorem exists_run {tr : List flab} {p : φ} (h : F.machine.run tr = some p) :
    ∃ s, (machine F app M mem).run (tr.map .thread) = some s := by
  obtain ⟨s, hs, -⟩ := runFrom_thread (s := (machine F app M mem).init) app mem hspawn h
  exact ⟨s, hs⟩

/-- A run that the front end goes on with. -/
theorem run_thread (h : (machine F app M mem).run tr = some s) {ls : List flab} {p : φ}
    (hp : F.machine.run (threads tr ++ ls) = some p) :
    ∃ s', (machine F app M mem).run (tr ++ ls.map .thread) = some s' ∧ s'.front = p := by
  rw [Machine.run_append, front_run h] at hp
  obtain ⟨s', hs', hfront⟩ := runFrom_thread app mem hspawn hp
  exact ⟨s', Machine.runFrom_append_of h hs', hfront⟩

end

/-! ## What the runtime is handed -/

/-- What is in the log matters to nobody while the behaviours in the runtime are as `good`
says and the log is as `mems` says. -/
structure Steady (M : List UInt8 → Machine τ (Call op lab)) (mem : List UInt8)
    (good : op → Prop) (mems : List UInt8 → Prop) : Prop where
  spawn : ∀ m t b, (M m).step t (.spawn b) = (M mem).step t (.spawn b)
  work : ∀ m calls t l, mems m → (M mem).run calls = some t →
    (∀ b ∈ Call.spawned calls, good b) → (M m).step t (.work l) = (M mem).step t (.work l)

section

variable {good : op → Prop} {mems : List UInt8 → Prop} (hst : Steady M mem good mems)
include hst

theorem Steady.runFrom_spawn (m : List UInt8) (t : τ) (bs : List op) :
    (M m).runFrom t (bs.map .spawn) = (M mem).runFrom t (bs.map .spawn) := by
  induction bs generalizing t with
  | nil => rfl
  | cons b bs ih =>
    rw [List.map_cons, Machine.runFrom_cons, Machine.runFrom_cons, hst.spawn m t b]
    exact congrArg _ (funext ih)

/-- Work goes on as if nothing was written to the log. -/
theorem Steady.runFrom_work {m : List UInt8} (hm : mems m) {calls : List (Call op lab)} {t u : τ}
    (hrun : (M mem).run calls = some t) (hgood : ∀ b ∈ Call.spawned calls, good b)
    {ls : List lab} (h : (M mem).runFrom t (ls.map .work) = some u) :
    (M m).runFrom t (ls.map .work) = some u := by
  induction ls generalizing calls t with
  | nil => exact h
  | cons l ls ih =>
    rw [List.map_cons, Machine.runFrom_cons, Option.bind_eq_some_iff] at h
    obtain ⟨v, hv, h⟩ := h
    have hnone : Call.spawned (calls ++ [.work l]) = Call.spawned calls := by
      rw [Call.spawned_append]
      exact List.append_nil _
    exact Machine.runFrom_cons_of ((hst.work m calls t l hm hrun hgood).trans hv)
      (ih (((M mem).run_snoc _ _ _).mpr ⟨t, hrun, hv⟩) (by rwa [hnone]) h)

end

/-- The behaviours of the records of the log. -/
def OfLog (log : Log) (spawns : Nat → List op) (b : op) : Prop :=
  ∃ k < log.readCount, b ∈ spawns k

/-- The log with some of its records prepared. -/
def Prepared (app : App op) (log : Log) (mem m : List UInt8) : Prop :=
  ∃ ks : List Nat, (∀ k ∈ ks, k < log.readCount) ∧ m = prepareAll app log ks mem

section

variable {log : Log} {spawns : Nat → List op} {es : List Nat}

theorem ofLog_flatMap (hes : ∀ k ∈ es, k < log.readCount) :
    ∀ b ∈ es.flatMap spawns, OfLog log spawns b := by
  intro b hb
  obtain ⟨k, hk, hb⟩ := List.mem_flatMap.mp hb
  exact ⟨k, hes k hk, hb⟩

/-- While records of the log are prepared, the log is prepared record by record. -/
theorem prepared_mem (h : (machine F app M mem).run tr = some s)
    (hsv : F.Serves log es (threads tr)) : Prepared app log mem s.mem := by
  obtain ⟨ks, hks, heq⟩ := hsv.prepared
  refine ⟨ks, hks, ?_⟩
  rw [mem_eq h, heq, List.foldl_map]
  rfl

/-- **What the runtime is handed**, and that it runs on nothing else. -/
theorem runtime_run (hres : Resolves app log mem spawns)
    (hst : Steady M mem (OfLog log spawns) (Prepared app log mem))
    (h : (machine F app M mem).run tr = some s) (hsv : F.Serves log es (threads tr)) :
    ∃ calls, (M mem).run calls = some s.runtime ∧ Call.spawned calls = es.flatMap spawns := by
  refine Machine.run_induction (P := fun tr s => ∀ es, F.Serves log es (threads tr) →
    ∃ calls, (M mem).run calls = some s.runtime ∧ Call.spawned calls = es.flatMap spawns)
    ?_ ?_ h es hsv
  · intro es hsv
    obtain rfl := List.map_eq_nil_iff.mp hsv.dispatched.symm
    exact ⟨[], rfl, rfl⟩
  · intro tr s l s' hrun ih hl es hsv
    rw [threads_append] at hsv
    cases l with
    | worker l =>
      have hnone : threads [@Label.worker flab lab l] = [] := rfl
      rw [hnone, List.append_nil] at hsv
      obtain ⟨calls, hcalls, hspawned⟩ := ih es hsv
      obtain ⟨t, ht, rfl⟩ := (step_worker F app M).mp hl
      rw [hst.work s.mem calls s.runtime l (prepared_mem hrun hsv) hcalls
        (hspawned ▸ ofLog_flatMap hsv.inside)] at ht
      refine ⟨calls ++ [.work l], ((M mem).run_snoc _ _ _).mpr ⟨_, hcalls, ht⟩, ?_⟩
      rw [Call.spawned_append, hspawned]
      exact List.append_nil _
    | thread l =>
      obtain ⟨es', hsv', hlast⟩ := FrontEnd.Serves.snoc (l := l) hsv
      obtain ⟨calls, hcalls, hspawned⟩ := ih es' hsv'
      obtain ⟨p, _, t, ht, rfl⟩ := (step_thread F app M).mp hl
      rw [hst.runFrom_spawn] at ht
      refine ⟨calls ++ (spawnedBy F app s.mem l).map .spawn, ?_, ?_⟩
      · rw [Machine.run_append, hcalls]
        exact ht
      · rw [Call.spawned_append, Call.spawned_map_spawn, hspawned, spawnedBy]
        rcases hlast with ⟨hno, rfl⟩ | ⟨k, hk, hdisp, rfl, hprep⟩
        · rw [hno]
          exact List.append_nil _
        · obtain ⟨ks, hks, heq⟩ := hsv'.prepared
          rw [heq] at hprep
          obtain ⟨k', hk', hrec⟩ := List.mem_map.mp hprep
          obtain rfl := (Log.record_inj log k' k).mp hrec
          rw [hdisp, List.flatMap_append, List.flatMap_singleton, mem_eq hrun, heq,
            List.foldl_map]
          exact congrArg _ (hres ks hks k' hk')

/-- **The workers go on by themselves**, as if nothing was written to the log. -/
theorem run_worker (hst : Steady M mem (OfLog log spawns) (Prepared app log mem))
    (h : (machine F app M mem).run tr = some s) (hsv : F.Serves log es (threads tr))
    {calls : List (Call op lab)} (hcalls : (M mem).run calls = some s.runtime)
    (hspawned : Call.spawned calls = es.flatMap spawns) {ls : List lab} {t : τ}
    (ht : (M mem).runFrom s.runtime (ls.map .work) = some t) :
    (machine F app M mem).run (tr ++ ls.map .worker) = some { s with runtime := t } :=
  Machine.runFrom_append_of h (runFrom_worker (hst.runFrom_work (prepared_mem h hsv) hcalls
    (hspawned ▸ ofLog_flatMap hsv.inside) ht))

end

end

end System

end Doradd
