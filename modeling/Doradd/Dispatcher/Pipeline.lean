import Mathlib.Logic.Function.Basic
import Doradd.Lib.Fifo
import Doradd.Dispatcher.RPCHandler
import Doradd.Dispatcher.Indexer
import Doradd.Dispatcher.Prefetcher
import Doradd.Dispatcher.Spawner

/-!
# The pipeline

Handler, indexer, prefetcher and spawner run side by side on the request
counter, the array of arrival times and two rings.  A run is any interleaving of
their steps, each sequentially consistent.

* `handler_run`, `indexer_run`, `prefetcher_run`, `spawner_run`: what a run does
  in one thread is a run of that thread alone;
* `flow`: how the batches pass from thread to thread.
-/

namespace Doradd

open Lib

/-- What a run starts from: the build, the log, the uninitialised `batch` of the
indexer and what the memory behind `log_arr` holds. -/
structure Setup where
  rpcLatency : Bool
  log : Log
  batch : Nat
  logArr : Nat → Nat

def exampleSetup (rpcLatency : Bool) : Setup := ⟨rpcLatency, exampleLog, 0, fun _ => 0⟩

/-- What the threads share. -/
structure Shared where
  recvdReqCnt : Nat
  logArr : Nat → Nat
  ringIdxPref : Fifo Nat channelSizeIdxPref
  ringPrefDisp : Fifo Nat channelSize

structure Pipeline where
  handler : RPCHandler
  indexer : Indexer
  prefetcher : Prefetcher
  spawner : Spawner
  shared : Shared

namespace Pipeline

inductive Label
  | handler (l : RPCHandler.Label)
  | indexer (l : Indexer.Label)
  | prefetcher (l : Prefetcher.Label)
  | spawner (l : Spawner.Label)
  deriving DecidableEq, Repr

/-! ## Steps -/

/-- What a step of the handler does to the shared state. -/
def handlerEffect (m : Shared) : RPCHandler.Label → Shared
  | .store k t => { m with logArr := Function.update m.logArr k t }
  | .count => { m with recvdReqCnt := (m.recvdReqCnt + 1) % 2 ^ 64 }
  | .stop => m

/-- A push waits while the ring is full. -/
def indexerEffect (m : Shared) : Indexer.Label → Option Shared
  | .load v _ => if v = m.recvdReqCnt then some m else none
  | .push b => (m.ringIdxPref.push b).map fun q => { m with ringIdxPref := q }
  | _ => some m

def prefetcherEffect (m : Shared) : Prefetcher.Label → Option Shared
  | .front r => if r = m.ringIdxPref.front then some m else none
  | .push b => (m.ringPrefDisp.push b).map fun q => { m with ringPrefDisp := q }
  | .pop => some { m with ringIdxPref := m.ringIdxPref.pop }
  | _ => some m

def spawnerEffect (m : Shared) : Spawner.Label → Option Shared
  | .front r => if r = m.ringPrefDisp.front then some m else none
  | .dispatch _ (some (k, t)) => if t = m.logArr k then some m else none
  | .pop => some { m with ringPrefDisp := m.ringPrefDisp.pop }
  | _ => some m

def step (c : Setup) (s : Pipeline) : Label → Option Pipeline
  | .handler l => do
    let t ← RPCHandler.step c.rpcLatency s.handler l
    return { s with handler := t, shared := handlerEffect s.shared l }
  | .indexer l => do
    let t ← Indexer.step c.log s.indexer l
    let m ← indexerEffect s.shared l
    return { s with indexer := t, shared := m }
  | .prefetcher l => do
    let t ← Prefetcher.step c.log s.prefetcher l
    let m ← prefetcherEffect s.shared l
    return { s with prefetcher := t, shared := m }
  | .spawner l => do
    let t ← Spawner.step c.rpcLatency c.log s.spawner l
    let m ← spawnerEffect s.shared l
    return { s with spawner := t, shared := m }

def init (c : Setup) : Pipeline :=
  ⟨⟨.head, 0⟩, Indexer.init c.log c.batch, Prefetcher.init c.log, Spawner.init c.log,
    ⟨0, c.logArr, .empty, .empty⟩⟩

def machine (c : Setup) : Machine Pipeline Label := ⟨init c, step c⟩

variable {c : Setup} {s s' : Pipeline}

theorem step_handler {l : RPCHandler.Label} :
    step c s (.handler l) = some s' ↔ ∃ t, RPCHandler.step c.rpcLatency s.handler l = some t ∧
      { s with handler := t, shared := handlerEffect s.shared l } = s' := by
  simp [step, Option.bind_eq_some_iff]

theorem step_indexer {l : Indexer.Label} :
    step c s (.indexer l) = some s' ↔ ∃ t, Indexer.step c.log s.indexer l = some t ∧
      ∃ m, indexerEffect s.shared l = some m ∧ { s with indexer := t, shared := m } = s' := by
  simp [step, Option.bind_eq_some_iff]

theorem step_prefetcher {l : Prefetcher.Label} :
    step c s (.prefetcher l) = some s' ↔ ∃ t, Prefetcher.step c.log s.prefetcher l = some t ∧
      ∃ m, prefetcherEffect s.shared l = some m ∧
        { s with prefetcher := t, shared := m } = s' := by
  simp [step, Option.bind_eq_some_iff]

theorem step_spawner {l : Spawner.Label} :
    step c s (.spawner l) = some s' ↔
      ∃ t, Spawner.step c.rpcLatency c.log s.spawner l = some t ∧
      ∃ m, spawnerEffect s.shared l = some m ∧ { s with spawner := t, shared := m } = s' := by
  simp [step, Option.bind_eq_some_iff]

/-! ## What the threads leave alone -/

theorem indexerEffect_frame {m m' : Shared} {l : Indexer.Label} (h : indexerEffect m l = some m') :
    m'.recvdReqCnt = m.recvdReqCnt ∧ m'.logArr = m.logArr ∧ m'.ringPrefDisp = m.ringPrefDisp := by
  cases l <;> simp only [indexerEffect, Option.map_eq_some_iff, Option.ite_none_right_eq_some,
    Option.some.injEq] at h
  case push => obtain ⟨q, _, rfl⟩ := h; exact ⟨rfl, rfl, rfl⟩
  case load => obtain ⟨_, rfl⟩ := h; exact ⟨rfl, rfl, rfl⟩
  all_goals subst h; exact ⟨rfl, rfl, rfl⟩

theorem prefetcherEffect_frame {m m' : Shared} {l : Prefetcher.Label}
    (h : prefetcherEffect m l = some m') :
    m'.recvdReqCnt = m.recvdReqCnt ∧ m'.logArr = m.logArr := by
  cases l <;> simp only [prefetcherEffect, Option.map_eq_some_iff, Option.ite_none_right_eq_some,
    Option.some.injEq] at h
  case push => obtain ⟨q, _, rfl⟩ := h; exact ⟨rfl, rfl⟩
  case front => obtain ⟨_, rfl⟩ := h; exact ⟨rfl, rfl⟩
  all_goals subst h; exact ⟨rfl, rfl⟩

theorem spawnerEffect_frame {m m' : Shared} {l : Spawner.Label} (h : spawnerEffect m l = some m') :
    m'.recvdReqCnt = m.recvdReqCnt ∧ m'.logArr = m.logArr ∧ m'.ringIdxPref = m.ringIdxPref := by
  rcases l with _ | r | a | _ | ⟨a, _ | ⟨k, t⟩⟩ | _ <;>
    simp only [spawnerEffect, Option.ite_none_right_eq_some, Option.some.injEq] at h
  case front => obtain ⟨_, rfl⟩ := h; exact ⟨rfl, rfl, rfl⟩
  case dispatch.some => obtain ⟨_, rfl⟩ := h; exact ⟨rfl, rfl, rfl⟩
  all_goals subst h; exact ⟨rfl, rfl, rfl⟩

/-! ## The threads of a run -/

def ofHandler : Label → Option RPCHandler.Label
  | .handler l => some l
  | _ => none

def ofIndexer : Label → Option Indexer.Label
  | .indexer l => some l
  | _ => none

def ofPrefetcher : Label → Option Prefetcher.Label
  | .prefetcher l => some l
  | _ => none

def ofSpawner : Label → Option Spawner.Label
  | .spawner l => some l
  | _ => none

variable {tr : List Label}

theorem handler_run (h : (machine c).run tr = some s) :
    (RPCHandler.machine c.rpcLatency).run (tr.filterMap ofHandler) = some s.handler := by
  refine Machine.run_project Pipeline.handler ofHandler rfl ?_ h
  intro tr s l s' _ hl
  cases l with
  | handler l => obtain ⟨t, ht, rfl⟩ := step_handler.mp hl; exact ht
  | indexer l => obtain ⟨t, _, m, _, rfl⟩ := step_indexer.mp hl; rfl
  | prefetcher l => obtain ⟨t, _, m, _, rfl⟩ := step_prefetcher.mp hl; rfl
  | spawner l => obtain ⟨t, _, m, _, rfl⟩ := step_spawner.mp hl; rfl

theorem indexer_run (h : (machine c).run tr = some s) :
    (Indexer.machine c.log c.batch).run (tr.filterMap ofIndexer) = some s.indexer := by
  refine Machine.run_project Pipeline.indexer ofIndexer rfl ?_ h
  intro tr s l s' _ hl
  cases l with
  | handler l => obtain ⟨t, _, rfl⟩ := step_handler.mp hl; rfl
  | indexer l => obtain ⟨t, ht, m, _, rfl⟩ := step_indexer.mp hl; exact ht
  | prefetcher l => obtain ⟨t, _, m, _, rfl⟩ := step_prefetcher.mp hl; rfl
  | spawner l => obtain ⟨t, _, m, _, rfl⟩ := step_spawner.mp hl; rfl

theorem prefetcher_run (h : (machine c).run tr = some s) :
    (Prefetcher.machine c.log).run (tr.filterMap ofPrefetcher) = some s.prefetcher := by
  refine Machine.run_project Pipeline.prefetcher ofPrefetcher rfl ?_ h
  intro tr s l s' _ hl
  cases l with
  | handler l => obtain ⟨t, _, rfl⟩ := step_handler.mp hl; rfl
  | indexer l => obtain ⟨t, _, m, _, rfl⟩ := step_indexer.mp hl; rfl
  | prefetcher l => obtain ⟨t, ht, m, _, rfl⟩ := step_prefetcher.mp hl; exact ht
  | spawner l => obtain ⟨t, _, m, _, rfl⟩ := step_spawner.mp hl; rfl

theorem spawner_run (h : (machine c).run tr = some s) :
    (Spawner.machine c.rpcLatency c.log).run (tr.filterMap ofSpawner) = some s.spawner := by
  refine Machine.run_project Pipeline.spawner ofSpawner rfl ?_ h
  intro tr s l s' _ hl
  cases l with
  | handler l => obtain ⟨t, _, rfl⟩ := step_handler.mp hl; rfl
  | indexer l => obtain ⟨t, _, m, _, rfl⟩ := step_indexer.mp hl; rfl
  | prefetcher l => obtain ⟨t, _, m, _, rfl⟩ := step_prefetcher.mp hl; rfl
  | spawner l => obtain ⟨t, ht, m, _, rfl⟩ := step_spawner.mp hl; exact ht

/-! ## From thread to thread -/

/-- Requests counted by the handler. -/
def received (tr : List Label) : Nat := tr.count (.handler .count)

/-- Batch sizes returned by the indexer's `check_avail_cnts`. -/
def taken (tr : List Label) : List Nat :=
  tr.filterMap fun
    | .indexer (.load _ (some b)) => some b
    | _ => none

/-- Batches pushed by the indexer. -/
def pushedIdxPref (tr : List Label) : List Nat :=
  tr.filterMap fun
    | .indexer (.push b) => some b
    | _ => none

/-- Batches the prefetcher has taken up. -/
def takenIdxPref (tr : List Label) : List Nat :=
  tr.filterMap fun
    | .prefetcher (.front (some b)) => some b
    | _ => none

/-- Batches pushed by the prefetcher. -/
def pushedPrefDisp (tr : List Label) : List Nat :=
  tr.filterMap fun
    | .prefetcher (.push b) => some b
    | _ => none

/-- Batches the spawner has taken up. -/
def takenPrefDisp (tr : List Label) : List Nat :=
  tr.filterMap fun
    | .spawner (.front (some b)) => some b
    | _ => none

section
variable (tr : List Label)

theorem received_eq : received tr = RPCHandler.counted (tr.filterMap ofHandler) := by
  induction tr with
  | nil => rfl
  | cons l tr ih =>
    rw [received, RPCHandler.counted] at ih
    rcases l with (_ | _ | _) | _ | _ | _ <;>
      simp [received, RPCHandler.counted, ofHandler, List.filterMap_cons, ih]

theorem taken_eq : taken tr = Indexer.taken (tr.filterMap ofIndexer) := by
  rw [Indexer.taken, taken, List.filterMap_filterMap]
  congr 1
  funext l
  rcases l with _ | (_ | ⟨_, _ | _⟩ | _ | _) | _ | _ <;> rfl

theorem pushedIdxPref_eq : pushedIdxPref tr = Indexer.pushed (tr.filterMap ofIndexer) := by
  rw [Indexer.pushed, pushedIdxPref, List.filterMap_filterMap]
  congr 1
  funext l
  rcases l with _ | (_ | _ | _ | _) | _ | _ <;> rfl

theorem takenIdxPref_eq : takenIdxPref tr = Prefetcher.batches (tr.filterMap ofPrefetcher) := by
  rw [Prefetcher.batches, takenIdxPref, List.filterMap_filterMap]
  congr 1
  funext l
  rcases l with _ | _ | ((_ | _) | _ | _ | _) | _ <;> rfl

theorem pushedPrefDisp_eq : pushedPrefDisp tr = Prefetcher.pushed (tr.filterMap ofPrefetcher) := by
  rw [Prefetcher.pushed, pushedPrefDisp, List.filterMap_filterMap]
  congr 1
  funext l
  rcases l with _ | _ | (_ | _ | _ | _) | _ <;> rfl

theorem takenPrefDisp_eq : takenPrefDisp tr = Spawner.batches (tr.filterMap ofSpawner) := by
  rw [Spawner.batches, takenPrefDisp, List.filterMap_filterMap]
  congr 1
  funext l
  rcases l with _ | _ | _ | (_ | (_ | _) | _ | _ | _ | _) <;> rfl

end

/-- The register holds the number of requests, modulo its width. -/
theorem recvdReqCnt_eq (h : (machine c).run tr = some s) :
    s.shared.recvdReqCnt = received tr % 2 ^ 64 := by
  refine Machine.run_induction (P := fun tr s => s.shared.recvdReqCnt = received tr % 2 ^ 64)
    (by rfl) ?_ h
  intro tr s l s' _ ih hl
  rw [received, List.count_append]
  cases l with
  | handler l =>
    obtain ⟨t, _, rfl⟩ := step_handler.mp hl
    cases l with
    | count =>
      simp only [handlerEffect, ih, Nat.mod_add_mod]
      rfl
    | _ => exact ih
  | indexer l =>
    obtain ⟨t, _, m, hm, rfl⟩ := step_indexer.mp hl
    exact (indexerEffect_frame hm).1.trans ih
  | prefetcher l =>
    obtain ⟨t, _, m, hm, rfl⟩ := step_prefetcher.mp hl
    exact (prefetcherEffect_frame hm).1.trans ih
  | spawner l =>
    obtain ⟨t, _, m, hm, rfl⟩ := step_spawner.mp hl
    exact (spawnerEffect_frame hm).1.trans ih

/-- The indexer never takes a request that has not been counted. -/
theorem taken_le_received (h : (machine c).run tr = some s) : (taken tr).sum ≤ received tr := by
  refine Machine.run_induction (P := fun tr _ => (taken tr).sum ≤ received tr)
    (Nat.zero_le _) ?_ h
  intro tr s l s' hrun ih hl
  rw [received, List.count_append, taken, List.filterMap_append, List.sum_append]
  rcases l with l | (_ | ⟨v, _ | b⟩ | a | b) | l | l
  case indexer.load.some =>
    obtain ⟨t, ht, m, hm, _⟩ := step_indexer.mp hl
    simp only [Indexer.step, Option.ite_none_right_eq_some] at ht
    simp only [indexerEffect, Option.ite_none_right_eq_some] at hm
    have hle := (checkAvailCnts_spec ht.1.2).2.2
    rw [hm.1, recvdReqCnt_eq hrun, Indexer.handledReqCnt_eq (indexer_run hrun), ← taken_eq] at hle
    have hw : b ≤ received tr - (taken tr).sum := Nat.le_trans hle (wsub_mod_le ih)
    have hsum : (taken tr).sum + b ≤ received tr := by omega
    exact Nat.le_trans hsum (Nat.le_add_right _ _)
  all_goals exact Nat.le_trans ih (Nat.le_add_right _ _)

/-! ### The rings -/

theorem indexer_pushes {m m' : Shared} {l : Indexer.Label} (hm : indexerEffect m l = some m')
    (held : List Nat) :
    m.ringIdxPref.Move held m'.ringIdxPref (pushedIdxPref [.indexer l]) [] held := by
  cases l <;> simp only [indexerEffect, Option.map_eq_some_iff, Option.ite_none_right_eq_some,
    Option.some.injEq] at hm
  case push => obtain ⟨q, hq, rfl⟩ := hm; exact .push hq
  case load => obtain ⟨_, rfl⟩ := hm; exact .idle
  all_goals subst hm; exact .idle

theorem prefetcher_pushes {m m' : Shared} {l : Prefetcher.Label}
    (hm : prefetcherEffect m l = some m') (held : List Nat) :
    m.ringPrefDisp.Move held m'.ringPrefDisp (pushedPrefDisp [.prefetcher l]) [] held := by
  cases l <;> simp only [prefetcherEffect, Option.map_eq_some_iff, Option.ite_none_right_eq_some,
    Option.some.injEq] at hm
  case push => obtain ⟨q, hq, rfl⟩ := hm; exact .push hq
  case front => obtain ⟨_, rfl⟩ := hm; exact .idle
  all_goals subst hm; exact .idle

/-- The prefetcher holds a batch from the time it finds it in front until it pops it. -/
theorem prefetcher_takes {m m' : Shared} {p t : Prefetcher} {l : Prefetcher.Label}
    (ht : Prefetcher.step c.log p l = some t) (hm : prefetcherEffect m l = some m') :
    m.ringIdxPref.Move p.holding m'.ringIdxPref [] (takenIdxPref [.prefetcher l]) t.holding := by
  rcases l with (_ | b) | a | b | _ <;>
    simp only [Prefetcher.step, Option.ite_none_right_eq_some, Option.some.injEq] at ht <;>
    simp only [prefetcherEffect, Option.map_eq_some_iff, Option.ite_none_right_eq_some,
      Option.some.injEq] at hm
  case front.none =>
    obtain ⟨hp, rfl⟩ := ht
    obtain ⟨_, rfl⟩ := hm
    simp only [Prefetcher.holding, hp]
    exact .idle
  case front.some =>
    obtain ⟨hp, rfl⟩ := ht
    obtain ⟨hf, rfl⟩ := hm
    exact .take hf.symm (by simp only [Prefetcher.holding, hp])
  case prefetch =>
    obtain ⟨⟨hp, _⟩, rfl⟩ := ht
    subst hm
    simp only [Prefetcher.holding, hp]
    exact .idle
  case push =>
    obtain ⟨⟨hp, _⟩, rfl⟩ := ht
    obtain ⟨q, _, rfl⟩ := hm
    simp only [Prefetcher.holding, hp]
    exact .idle
  case pop =>
    obtain ⟨hp, rfl⟩ := ht
    subst hm
    exact .pop (a := p.batchSz) (by simp only [Prefetcher.holding, hp])

/-- So does the spawner. -/
theorem spawner_takes {m m' : Shared} {p t : Spawner} {l : Spawner.Label}
    (ht : Spawner.step c.rpcLatency c.log p l = some t) (hm : spawnerEffect m l = some m') :
    m.ringPrefDisp.Move p.holding m'.ringPrefDisp [] (takenPrefDisp [.spawner l]) t.holding := by
  rcases l with _ | (_ | b) | a | _ | ⟨a, _ | ⟨k, n⟩⟩ | _ <;>
    simp only [Spawner.step, Option.ite_none_right_eq_some, Option.some.injEq] at ht <;>
    simp only [spawnerEffect, Option.ite_none_right_eq_some, Option.some.injEq] at hm
  case front.some =>
    obtain ⟨⟨hp, _⟩, rfl⟩ := ht
    obtain ⟨hf, rfl⟩ := hm
    exact .take hf.symm (by simp only [Spawner.holding, hp])
  case pop =>
    obtain ⟨⟨hp, _⟩, rfl⟩ := ht
    subst hm
    exact .pop (a := p.batchSz) (by simp only [Spawner.holding, hp])
  case front.none =>
    obtain ⟨_, rfl⟩ := ht
    obtain ⟨_, rfl⟩ := hm
    exact .idle
  case dispatch.some =>
    obtain ⟨⟨hp, _⟩, rfl⟩ := ht
    obtain ⟨_, rfl⟩ := hm
    simp only [Spawner.holding, hp]
    exact .idle
  all_goals
    obtain ⟨⟨hp, _⟩, rfl⟩ := ht
    subst hm
    simp only [Spawner.holding, hp]
    exact .idle

theorem step_idxPref {l : Label} (hl : step c s l = some s') :
    s.shared.ringIdxPref.Move s.prefetcher.holding s'.shared.ringIdxPref (pushedIdxPref [l])
      (takenIdxPref [l]) s'.prefetcher.holding := by
  cases l with
  | handler l =>
    obtain ⟨t, _, rfl⟩ := step_handler.mp hl
    cases l <;> exact .idle
  | indexer l =>
    obtain ⟨t, _, m, hm, rfl⟩ := step_indexer.mp hl
    exact indexer_pushes hm _
  | prefetcher l =>
    obtain ⟨t, ht, m, hm, rfl⟩ := step_prefetcher.mp hl
    exact prefetcher_takes ht hm
  | spawner l =>
    obtain ⟨t, _, m, hm, rfl⟩ := step_spawner.mp hl
    rw [(spawnerEffect_frame hm).2.2]
    exact .idle

theorem step_prefDisp {l : Label} (hl : step c s l = some s') :
    s.shared.ringPrefDisp.Move s.spawner.holding s'.shared.ringPrefDisp (pushedPrefDisp [l])
      (takenPrefDisp [l]) s'.spawner.holding := by
  cases l with
  | handler l =>
    obtain ⟨t, _, rfl⟩ := step_handler.mp hl
    cases l <;> exact .idle
  | indexer l =>
    obtain ⟨t, _, m, hm, rfl⟩ := step_indexer.mp hl
    rw [(indexerEffect_frame hm).2.2]
    exact .idle
  | prefetcher l =>
    obtain ⟨t, _, m, hm, rfl⟩ := step_prefetcher.mp hl
    exact prefetcher_pushes hm _
  | spawner l =>
    obtain ⟨t, ht, m, hm, rfl⟩ := step_spawner.mp hl
    exact spawner_takes ht hm

/-- What passes from the indexer to the prefetcher. -/
theorem relays_idxPref (h : (machine c).run tr = some s) :
    s.shared.ringIdxPref.Relays (pushedIdxPref tr) (takenIdxPref tr) s.prefetcher.holding := by
  refine Machine.run_induction (P := fun tr s =>
    s.shared.ringIdxPref.Relays (pushedIdxPref tr) (takenIdxPref tr) s.prefetcher.holding)
    Fifo.relays_empty ?_ h
  intro tr s l s' _ ih hl
  have hmove := ih.move (step_idxPref hl)
  rwa [pushedIdxPref, pushedIdxPref, takenIdxPref, takenIdxPref, ← List.filterMap_append,
    ← List.filterMap_append] at hmove

/-- What passes from the prefetcher to the spawner. -/
theorem relays_prefDisp (h : (machine c).run tr = some s) :
    s.shared.ringPrefDisp.Relays (pushedPrefDisp tr) (takenPrefDisp tr) s.spawner.holding := by
  refine Machine.run_induction (P := fun tr s =>
    s.shared.ringPrefDisp.Relays (pushedPrefDisp tr) (takenPrefDisp tr) s.spawner.holding)
    Fifo.relays_empty ?_ h
  intro tr s l s' _ ih hl
  have hmove := ih.move (step_prefDisp hl)
  rwa [pushedPrefDisp, pushedPrefDisp, takenPrefDisp, takenPrefDisp, ← List.filterMap_append,
    ← List.filterMap_append] at hmove

end Pipeline

end Doradd
