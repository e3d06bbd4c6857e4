import Doradd.Dispatcher.Accounting
import Doradd.Dispatcher.FileDispatcher

/-!
# The pipeline refines the single-threaded dispatcher

* `pipeline_refines`: with `B` the sizes pushed by the indexer, what the spawner
  dispatches is a prefix of what `FileDispatcher` dispatches on `B`, and the
  prefetcher and the spawner handle the same records in their `k`-th batches.
-/

namespace Doradd.Pipeline

open Lib

variable {c : Setup} {tr : List Label} {s : Pipeline}

/-- Records prefetched, batch by batch. -/
def handledPref (tr : List Label) : List (List Nat) :=
  Walker.handled ((tr.filterMap ofPrefetcher).filterMap Prefetcher.walk)

/-- Records dispatched, batch by batch. -/
def handledDisp (tr : List Label) : List (List Nat) :=
  Walker.handled ((tr.filterMap ofSpawner).filterMap Spawner.walk)

theorem length_handledPref (tr : List Label) :
    (handledPref tr).length = (takenIdxPref tr).length := by
  rw [handledPref, Walker.length_handled, Prefetcher.taken_walk, takenIdxPref_eq]

theorem length_handledDisp (tr : List Label) :
    (handledDisp tr).length = (takenPrefDisp tr).length := by
  rw [handledDisp, Walker.length_handled, Spawner.taken_walk, takenPrefDisp_eq]

/-- What the spawner has dispatched is a prefix of the replay of its batches. -/
theorem dispatched_isPrefix (hn : maxBatch ≤ c.log.readCount) (h : (machine c).run tr = some s) :
    dispatched tr <+:
      (Pos.visits (spawnLimit c.log.readCount) ⟨0, 0⟩ (takenPrefDisp tr)).map c.log.record := by
  have hb := isBatches_takenPrefDisp h
  rw [takenPrefDisp_eq] at hb ⊢
  have ht := (Spawner.spawner_tracks hn (spawner_run h) hb).visited_isPrefix
  rwa [Spawner.taken_walk, Spawner.visited_walk, ← dispatched_eq] at ht

/-- The dispatched records are a prefix of the single-threaded run. -/
theorem dispatched_prefix_run (hn : maxBatch ≤ c.log.readCount)
    (h : (machine c).run tr = some s) (prefetch : Bool) :
    dispatched tr <+: FileDispatcher.dispatches (FileDispatcher.run ⟨c.rpcLatency, prefetch⟩ c.log
      (pushedIdxPref tr) (FileDispatcher.init c.log)).2 := by
  have hsum : c.rpcLatency = true → 0 + (pushedIdxPref tr).sum ≤ rpcLogSize := by
    intro hc
    have h₁ := sum_le_of_isPrefix (pushedIdxPref_isPrefix h)
    have h₂ := taken_le_received h
    have h₃ := received_le hc h
    omega
  rw [FileDispatcher.run_dispatches ⟨c.rpcLatency, prefetch⟩ hn (pushedIdxPref tr)
    (isBatches_pushedIdxPref h) (s := FileDispatcher.init c.log) (p := ⟨0, 0⟩) rfl hsum]
  exact (dispatched_isPrefix hn h).trans
    ((Pos.visits_isPrefix _ ⟨0, 0⟩ ((taken_isPrefix h).trans (takenIdxPref_isPrefix h))).map _)

/-- The prefetcher has been through the batches that the spawner takes, for it has pushed
them. -/
theorem handledPref_done (h : (machine c).run tr = some s) {k : Nat}
    (hk : k < (takenPrefDisp tr).length) :
    ∃ ys, (handledPref tr)[k]? = some ys ∧
      (k + 1 < (handledPref tr).length ∨ s.prefetcher.todo = 0) := by
  have hpush := Prefetcher.batches_eq (prefetcher_run h)
  rw [← takenIdxPref_eq, ← pushedPrefDisp_eq] at hpush
  have hle := (takenPrefDisp_isPrefix h).length_le
  have hlen := congrArg List.length hpush
  rw [List.length_append] at hlen
  refine ⟨_, List.getElem?_eq_getElem (by rw [length_handledPref]; omega), ?_⟩
  rw [length_handledPref]
  cases hp : s.prefetcher.pc with
  | prefetch =>
    have : s.prefetcher.pending.length = 1 := by rw [Prefetcher.pending, hp]; rfl
    exact Or.inl (by omega)
  | head => exact Or.inr (by rw [Prefetcher.todo, hp])
  | pop => exact Or.inr (by rw [Prefetcher.todo, hp])

/-- The `k`-th batch of the spawner against the `k`-th batch of the prefetcher:
the same records, as far as the spawner has come with it. -/
theorem handled_agree (hn : maxBatch ≤ c.log.readCount) (h : (machine c).run tr = some s)
    {k : Nat} {xs : List Nat} (hx : (handledDisp tr)[k]? = some xs) :
    ∃ es : List Nat, (∀ e ∈ es, e < c.log.readCount) ∧
      (handledPref tr)[k]? = some (es.map c.log.record) ∧ xs <+: es.map c.log.record ∧
      (k + 1 < (handledDisp tr).length ∨ s.spawner.todo = 0 → xs = es.map c.log.record) := by
  have hbS := isBatches_takenPrefDisp h
  have hbP := isBatches_takenIdxPref h
  rw [takenPrefDisp_eq] at hbS
  rw [takenIdxPref_eq] at hbP
  have hS := Spawner.spawner_tracks hn (spawner_run h) hbS
  obtain ⟨e, hP⟩ := Prefetcher.prefetcher_tracks hn (prefetcher_run h) hbP
  have hk : k < (takenPrefDisp tr).length := by
    rw [← length_handledDisp]
    exact (List.getElem?_eq_some_iff.mp hx).1
  obtain ⟨es, hes, hxs, hfull⟩ := hS.handled_get hx
  obtain ⟨ys, hys, hdone⟩ := handledPref_done h hk
  obtain ⟨ds, hds, _, hfullP⟩ := hP.handled_get hys
  -- both are the `k`-th batch of one replay
  rw [Spawner.taken_walk, ← takenPrefDisp_eq] at hes
  rw [Prefetcher.taken_walk, ← takenIdxPref_eq] at hds
  obtain rfl : es = ds := by
    obtain ⟨rest, hrest⟩ :=
      Pos.batches_isPrefix (spawnLimit c.log.readCount) ⟨0, 0⟩ (taken_isPrefix h)
    rw [← hrest, List.getElem?_append_left (List.getElem?_eq_some_iff.mp hes).1, hes] at hds
    exact Option.some.inj hds
  refine ⟨es, ?_, ?_, hxs, hfull⟩
  · intro d hd
    refine (fits_spawn hn ⟨0, 0⟩ (isBatches_takenIdxPref h)).visits_lt d ?_
    rw [Pos.visits, List.mem_flatten]
    exact ⟨es, List.mem_of_getElem? hds, hd⟩
  · rw [hys, hfullP hdone]

/-- **Refinement.** -/
theorem pipeline_refines (hn : maxBatch ≤ c.log.readCount) (h : (machine c).run tr = some s)
    (prefetch : Bool) :
    (dispatched tr <+: FileDispatcher.dispatches (FileDispatcher.run ⟨c.rpcLatency, prefetch⟩ c.log
      (pushedIdxPref tr) (FileDispatcher.init c.log)).2) ∧
    ∀ (k : Nat) (xs : List Nat), (handledDisp tr)[k]? = some xs →
      ∃ es : List Nat, (∀ e ∈ es, e < c.log.readCount) ∧
        (handledPref tr)[k]? = some (es.map c.log.record) ∧ xs <+: es.map c.log.record ∧
        (k + 1 < (handledDisp tr).length ∨ s.spawner.todo = 0 → xs = es.map c.log.record) :=
  ⟨dispatched_prefix_run hn h prefetch, fun _ _ hx => handled_agree hn h hx⟩

/-- Five dispatches, the last of them from the second batch, which holds record 0. -/
theorem pipeline_refines_example :
    ∃ s, (machine (exampleSetup true)).run (secondPass ++ [.spawner (.dispatch 4 (some (4, 11)))]) =
        some s ∧
      [4, 132, 260, 388, 4] <+:
        FileDispatcher.dispatches (FileDispatcher.run ⟨true, true⟩ exampleLog [4, 1, 2]
          (FileDispatcher.init exampleLog)).2 ∧
      ∃ es : List Nat, (∀ e ∈ es, e < 6) ∧
        (handledPref (secondPass ++ [.spawner (.dispatch 4 (some (4, 11)))]))[1]? =
          some (es.map exampleLog.record) ∧ [4] <+: es.map exampleLog.record := by
  refine ⟨_, rfl, ?_⟩
  obtain ⟨hbegins, hbatch⟩ := @pipeline_refines (exampleSetup true)
    (secondPass ++ [.spawner (.dispatch 4 (some (4, 11)))]) _ (by decide) rfl true
  obtain ⟨es, hes, hpref, hdisp, -⟩ := hbatch 1 [4] rfl
  exact ⟨hbegins, es, hes, hpref, hdisp⟩

end Doradd.Pipeline
