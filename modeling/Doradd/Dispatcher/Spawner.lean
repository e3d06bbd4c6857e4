import Doradd.Dispatcher.Walker

/-!
# Spawner

`Spawner::run` as a machine of its own: what the ring shows at its front is an
input.  The build without `RPC_LATENCY` has no `txn_log_id`, no stop test and
reads no arrival time.

* `spawner_walks`: through `walk` a run of the spawner is a run of a walker;
* `spawner_tracks`: so it stands at a record of the log and replays it;
* `replay_shape`: the records it dispatches are passes from record 0, and its
  two read heads agree with each other and stay inside the log.
-/

namespace Doradd

open Lib

inductive Spawner.Pc
  | head
  | prefetch
  | dispatch
  | done
  deriving DecidableEq, Repr

/-- The variables of `Spawner::run`; `cursor` holds `idx` and `read_head`. -/
structure Spawner where
  pc : Spawner.Pc
  cursor : Cursor
  prepareReadHead : Nat
  batchSz : Nat
  i : Nat
  txnLogId : Nat
  deriving DecidableEq, Repr

namespace Spawner

/-- `front r` is one poll of the ring, `exitPrefetch` the end of the first loop,
`dispatch a t` one iteration of the second on the record at `a`, where `t` is
the slot read in `init_time_log_arr` and the time found there. -/
inductive Label
  | stop
  | front (r : Option Nat)
  | prefetch (a : Nat)
  | exitPrefetch
  | dispatch (a : Nat) (t : Option (Nat × Nat))
  | pop
  deriving DecidableEq, Repr

/-- `txn_log_id > RPC_LOG_SIZE` -/
def logExceeded (rpcLatency : Bool) (s : Spawner) : Prop :=
  rpcLatency = true ∧ rpcLogSize < s.txnLogId

instance (rpcLatency : Bool) (s : Spawner) : Decidable (logExceeded rpcLatency s) :=
  inferInstanceAs (Decidable (_ ∧ _))

def step (rpcLatency : Bool) (log : Log) (s : Spawner) : Label → Option Spawner
  | .stop =>
    if s.pc = .head ∧ logExceeded rpcLatency s then some { s with pc := .done } else none
  | .front none =>
    if s.pc = .head ∧ ¬ logExceeded rpcLatency s then some s else none
  | .front (some b) =>
    if s.pc = .head ∧ ¬ logExceeded rpcLatency s then
      some { s with
        pc := .prefetch
        cursor := s.cursor.wrap log log.wrapLimit
        prepareReadHead := if log.wrapLimit < s.cursor.idx then log.readTop else s.prepareReadHead
        batchSz := b
        i := 0 }
    else none
  | .prefetch a =>
    if s.pc = .prefetch ∧ s.i < s.batchSz ∧ a = s.prepareReadHead then
      some { s with prepareReadHead := s.prepareReadHead + log.recordSize, i := s.i + 1 }
    else none
  | .exitPrefetch =>
    if s.pc = .prefetch ∧ ¬ s.i < s.batchSz then some { s with pc := .dispatch, i := 0 } else none
  | .dispatch a t =>
    if s.pc = .dispatch ∧ s.i < s.batchSz ∧ a = s.cursor.readHead ∧
        t.map Prod.fst = (if rpcLatency then some s.txnLogId else none) then
      some { s with
        cursor := s.cursor.next log
        i := s.i + 1
        txnLogId := if rpcLatency then (s.txnLogId + 1) % 2 ^ 64 else s.txnLogId }
    else none
  | .pop =>
    if s.pc = .dispatch ∧ ¬ s.i < s.batchSz then some { s with pc := .head } else none

def init (log : Log) : Spawner := ⟨.head, log.at 0, log.readTop, 0, 0, 0⟩

def machine (rpcLatency : Bool) (log : Log) : Machine Spawner Label :=
  ⟨init log, step rpcLatency log⟩

/-- The batches taken from the ring. -/
def batches (tr : List Label) : List Nat :=
  tr.filterMap fun
    | .front (some b) => some b
    | _ => none

/-- The records dispatched. -/
def dispatched (tr : List Label) : List Nat :=
  tr.filterMap fun
    | .dispatch a _ => some a
    | _ => none

/-- The records read by the prefetch loop. -/
def prefetched (tr : List Label) : List Nat :=
  tr.filterMap fun
    | .prefetch a => some a
    | _ => none

/-- The batch taken and not yet popped, if there is one. -/
def holding (s : Spawner) : List Nat :=
  match s.pc with
  | .prefetch => [s.batchSz]
  | .dispatch => [s.batchSz]
  | _ => []

/-! ## The spawner is a walker -/

/-- Records of the batch in hand that are still to be dispatched. -/
def todo (s : Spawner) : Nat :=
  match s.pc with
  | .prefetch => s.batchSz
  | .dispatch => s.batchSz - s.i
  | _ => 0

def walk : Label → Option Walker.Label
  | .front (some b) => some (.take b)
  | .dispatch a _ => some (.visit a)
  | _ => none

theorem taken_walk (tr : List Label) : Walker.taken (tr.filterMap walk) = batches tr := by
  rw [Walker.taken, batches, List.filterMap_filterMap]
  congr 1
  funext l
  rcases l with _ | (_ | b) | _ | _ | _ | _ <;> rfl

theorem visited_walk (tr : List Label) : Walker.visited (tr.filterMap walk) = dispatched tr := by
  rw [Walker.visited, dispatched, List.filterMap_filterMap]
  congr 1
  funext l
  rcases l with _ | (_ | b) | _ | _ | _ | _ <;> rfl

variable {rpcLatency : Bool} {log : Log} {tr : List Label} {s : Spawner}

theorem spawner_walks (h : (machine rpcLatency log).run tr = some s) :
    (Walker.machine log (fun _ => log.wrapLimit) 0).run (tr.filterMap walk) =
      some ⟨s.cursor, s.batchSz, s.todo⟩ := by
  refine Machine.run_project (fun s : Spawner => (⟨s.cursor, s.batchSz, s.todo⟩ : Walker)) walk
    rfl ?_ h
  intro tr s l s' _ hl
  rcases l with _ | (_ | b) | a | _ | ⟨a, t⟩ | _ <;>
    simp only [machine, step, Option.ite_none_right_eq_some, Option.some.injEq] at hl
  case stop => obtain ⟨⟨hp, _⟩, rfl⟩ := hl; simp [walk, todo, hp]
  case front.none => obtain ⟨_, rfl⟩ := hl; rfl
  case front.some =>
    obtain ⟨⟨hp, _⟩, rfl⟩ := hl
    simp [walk, todo, hp, Walker.machine, Walker.step]
  case prefetch => obtain ⟨⟨hp, _⟩, rfl⟩ := hl; simp [walk, todo, hp]
  case exitPrefetch => obtain ⟨⟨hp, _⟩, rfl⟩ := hl; simp [walk, todo, hp]
  case dispatch =>
    obtain ⟨⟨hp, hi, ha, _⟩, rfl⟩ := hl
    simp [walk, todo, hp, Walker.machine, Walker.step, ha, Nat.sub_sub]
    omega
  case pop =>
    obtain ⟨⟨hp, hi⟩, rfl⟩ := hl
    simp [walk, todo, hp]
    omega

theorem length_dispatched (h : (machine rpcLatency log).run tr = some s) :
    (dispatched tr).length + s.todo = (batches tr).sum := by
  rw [← visited_walk, ← taken_walk]
  exact Walker.length_visited (spawner_walks h)

theorem todo_le_holding (s : Spawner) : s.todo ≤ s.holding.sum := by
  unfold todo holding
  cases s.pc <;> simp

/-- In the build with `RPC_LATENCY`, `txn_log_id` counts the dispatches. -/
theorem txnLogId_eq (h : (machine true log).run tr = some s) :
    s.txnLogId = (dispatched tr).length % 2 ^ 64 := by
  refine Machine.run_induction (P := fun tr s => s.txnLogId = (dispatched tr).length % 2 ^ 64)
    (by rfl) ?_ h
  intro tr s l s' _ ih hl
  rw [dispatched] at ih ⊢
  rw [List.filterMap_append, List.length_append]
  rcases l with _ | (_ | b) | a | _ | ⟨a, t⟩ | _ <;>
    simp only [machine, step, Option.ite_none_right_eq_some, Option.some.injEq] at hl
  case dispatch =>
    obtain ⟨_, rfl⟩ := hl
    simp only [if_true, ih, Nat.mod_add_mod]
    rfl
  all_goals
    obtain ⟨_, rfl⟩ := hl
    exact ih

/-- With batches that `check_avail_cnts` may return, the spawner stands at a
record of the log and replays it. -/
theorem spawner_tracks (hn : maxBatch ≤ log.readCount)
    (h : (machine rpcLatency log).run tr = some s) (hb : IsBatches (batches tr)) :
    Walker.Tracks log (spawnLimit log.readCount) 0 (tr.filterMap walk)
      ⟨s.cursor, s.batchSz, s.todo⟩ s.cursor.idx := by
  have hf := fits_spawn hn ⟨0, 0⟩ hb
  rw [← taken_walk, ← spawnLimit_eq hn] at hf
  rw [← spawnLimit_eq hn]
  obtain ⟨e, he⟩ := Walker.walker_at (spawner_walks h) hf
  have hc : s.cursor.idx = e := by
    have := he.cursor
    simp only at this
    rw [this, Log.at_idx]
  rw [hc]
  exact he

/-- With no batch in hand the spawner has dispatched the replay of its batches. -/
theorem dispatched_idle (hn : maxBatch ≤ log.readCount)
    (h : (machine rpcLatency log).run tr = some s) (hb : IsBatches (batches tr))
    (hp : s.pc = .head) :
    dispatched tr =
      (Pos.visits (spawnLimit log.readCount) ⟨0, 0⟩ (batches tr)).map log.record := by
  have hv := (spawner_tracks hn h hb).visited_idle (by simp [todo, hp])
  rwa [taken_walk, visited_walk] at hv

/-! ## The shape of a replay -/

/-- How the two read heads lie to each other at each point of the loop body. -/
def HeadsAgree (log : Log) (s : Spawner) : Prop :=
  match s.pc with
  | .prefetch =>
    s.prepareReadHead = s.cursor.readHead + s.i * log.recordSize ∧ s.i ≤ s.batchSz
  | .dispatch =>
    s.prepareReadHead = s.cursor.readHead + (s.batchSz - s.i) * log.recordSize ∧ s.i ≤ s.batchSz
  | _ => s.prepareReadHead = s.cursor.readHead

theorem step_headsAgree {s' : Spawner} {l : Label} (hs : HeadsAgree log s)
    (hl : step rpcLatency log s l = some s') : HeadsAgree log s' := by
  rcases l with _ | (_ | b) | a | _ | ⟨a, t⟩ | _ <;>
    simp only [step, Option.ite_none_right_eq_some, Option.some.injEq] at hl
  case stop => obtain ⟨⟨hp, _⟩, rfl⟩ := hl; simpa [HeadsAgree, hp] using hs
  case front.none => obtain ⟨_, rfl⟩ := hl; exact hs
  case front.some =>
    obtain ⟨⟨hp, _⟩, rfl⟩ := hl
    simp only [HeadsAgree, hp] at hs
    by_cases hlim : log.wrapLimit < s.cursor.idx
    · simp [HeadsAgree, Cursor.wrap, hlim]
    · simpa [HeadsAgree, Cursor.wrap, hlim] using hs
  case prefetch =>
    obtain ⟨⟨hp, hi, _⟩, rfl⟩ := hl
    simp only [HeadsAgree, hp] at hs
    simp only [HeadsAgree, hp, hs.1, Nat.add_mul, Nat.one_mul, Nat.add_assoc, true_and]
    omega
  case exitPrefetch =>
    obtain ⟨⟨hp, hi⟩, rfl⟩ := hl
    simp only [HeadsAgree, hp] at hs
    have he : s.i = s.batchSz := by omega
    simp only [HeadsAgree, hs.1, he, Nat.sub_zero, Nat.zero_le, and_self]
  case dispatch =>
    obtain ⟨⟨hp, hi, _⟩, rfl⟩ := hl
    simp only [HeadsAgree, hp] at hs
    obtain ⟨k, hk⟩ : ∃ k, s.batchSz - s.i = k + 1 := ⟨s.batchSz - s.i - 1, by omega⟩
    have hk' : s.batchSz - (s.i + 1) = k := by omega
    rw [hk] at hs
    simp only [HeadsAgree, hp, Cursor.next, hk', hs.1, Nat.add_mul, Nat.one_mul]
    omega
  case pop =>
    obtain ⟨⟨hp, hi⟩, rfl⟩ := hl
    simp only [HeadsAgree, hp] at hs
    have hz : s.batchSz - s.i = 0 := by omega
    simp only [HeadsAgree, hs.1, hz, Nat.zero_mul, Nat.add_zero]

theorem headsAgree (h : (machine rpcLatency log).run tr = some s) : HeadsAgree log s := by
  refine Machine.run_induction (P := fun _ s => HeadsAgree log s) ?_ ?_ h
  · simp only [HeadsAgree, machine, init, Log.at_zero]
  · intro _ _ _ _ _ ih hl
    exact step_headsAgree ih hl

theorem batches_append (tr tr' : List Label) : batches (tr ++ tr') = batches tr ++ batches tr' :=
  List.filterMap_append

/-- The prefetch loop reads records of the log only. -/
theorem prefetched_inside (hn : maxBatch ≤ log.readCount)
    (h : (machine rpcLatency log).run tr = some s) (hb : IsBatches (batches tr)) :
    ∀ a ∈ prefetched tr, ∃ e < log.readCount, a = log.record e := by
  revert hb
  refine Machine.run_induction (P := fun tr _ => IsBatches (batches tr) →
    ∀ a ∈ prefetched tr, ∃ e < log.readCount, a = log.record e) ?_ ?_ h
  · intro _ a ha
    cases ha
  · intro tr s l s' hrun ih hl hb a ha
    rw [batches_append, isBatches_append] at hb
    rw [prefetched, List.filterMap_append, List.mem_append] at ha
    rcases ha with ha | ha
    · exact ih hb.1 a ha
    · cases l with
      | prefetch a' =>
        replace ha : a = a' := List.mem_singleton.mp ha
        simp only [machine, step, Option.ite_none_right_eq_some] at hl
        obtain ⟨⟨hp, hi, ha'⟩, _⟩ := hl
        have ht := spawner_tracks hn hrun hb.1
        have hbound := ht.bound
        have hcur := ht.cursor
        have hheads := headsAgree hrun
        simp only [todo, hp] at hbound hcur
        simp only [HeadsAgree, hp] at hheads
        refine ⟨s.cursor.idx + s.i, by omega, ?_⟩
        rw [ha, ha', hheads.1, hcur, Log.at_readHead, Log.at_idx, Log.record, Log.record,
          Nat.add_mul, Nat.add_assoc]
      | _ => simp at ha

/-- **Shape of a replay.** -/
theorem replay_shape (hn : maxBatch ≤ log.readCount)
    (h : (machine rpcLatency log).run tr = some s) (hb : IsBatches (batches tr)) :
    (∃ (ms : List Nat) (m : Nat),
      (∀ k ∈ ms, log.readCount - maxBatch + 1 ≤ k ∧ k ≤ log.readCount) ∧ m ≤ log.readCount ∧
      dispatched tr = ((ms ++ [m]).flatMap List.range).map log.record) ∧
    (dispatched tr).length + s.todo = (batches tr).sum ∧
    s.cursor.readHead = log.readTop + s.cursor.idx * log.recordSize ∧
    (s.pc = .head → s.prepareReadHead = s.cursor.readHead) ∧
    ∀ a ∈ prefetched tr ++ dispatched tr, ∃ e < log.readCount, a = log.record e := by
  have ht := spawner_tracks hn h hb
  have hf := fits_spawn hn ⟨0, 0⟩ hb
  refine ⟨?_, length_dispatched h, ?_, ?_, ?_⟩
  · rw [← taken_walk, ← spawnLimit_eq hn] at hf
    obtain ⟨ms, hm, hv⟩ := Walker.walker_passes (spawner_walks h) hf
    have hbound := ht.bound
    refine ⟨ms, s.cursor.idx, fun k hk => ?_, by omega, ?_⟩
    · obtain ⟨⟨_, hlim⟩, hle⟩ := hm k hk
      rw [Log.wrapLimit_eq hn] at hlim
      exact ⟨hlim, hle⟩
    · rw [← visited_walk, hv, List.flatMap_append]
      simp
  · have hc := ht.cursor
    simp only at hc
    rw [hc, Log.at_readHead, Log.at_idx, Log.record]
  · intro hp
    have hh := headsAgree h
    simpa only [HeadsAgree, hp] using hh
  · intro a ha
    rcases List.mem_append.mp ha with ha | ha
    · exact prefetched_inside hn h hb a ha
    · have hsub := ht.visited_isPrefix.subset
      rw [visited_walk, taken_walk] at hsub
      obtain ⟨e, he, rfl⟩ := List.mem_map.mp (hsub ha)
      exact ⟨e, hf.visits_lt e he, rfl⟩

/-- The labels of one batch of `b` records from record `e`, in the build without
`RPC_LATENCY`. -/
def batchLabels (log : Log) (e b : Nat) : List Label :=
  .front (some b) :: (List.range' e b).map (fun d => .prefetch (log.record d)) ++
    .exitPrefetch :: (List.range' e b).map (fun d => .dispatch (log.record d) none) ++ [.pop]

/-- A pass of three records, one of four and the beginning of a third one. -/
theorem replay_shape_example :
    ∃ tr s, (machine false exampleLog).run tr = some s ∧ batches tr = [3, 4, 1] ∧
      (∃ (ms : List Nat) (m : Nat), (∀ k ∈ ms, 3 ≤ k ∧ k ≤ 6) ∧ m ≤ 6 ∧
        dispatched tr = ((ms ++ [m]).flatMap List.range).map exampleLog.record) ∧
      (dispatched tr).length = 8 ∧
      ∀ a ∈ prefetched tr ++ dispatched tr, ∃ e < 6, a = exampleLog.record e := by
  refine ⟨batchLabels exampleLog 0 3 ++ batchLabels exampleLog 0 4 ++ batchLabels exampleLog 0 1,
    _, rfl, rfl, ?_⟩
  obtain ⟨hpasses, hlen, -, -, hinside⟩ := @replay_shape false exampleLog
    (batchLabels exampleLog 0 3 ++ batchLabels exampleLog 0 4 ++ batchLabels exampleLog 0 1) _
    (by decide) rfl (by decide)
  exact ⟨hpasses, hlen, hinside⟩

end Spawner

end Doradd
