import Doradd.Dispatcher.Replay

/-!
# FileDispatcher

The single-threaded dispatcher.  Each call of `dispatch_batch` prepares,
prefetches and dispatches one batch; the size that `check_avail_cnts` returns is
an input.

* `dispatchBatch_dispatches`: one call dispatches the next records of the log;
* `run_dispatches`: a run dispatches the abstract replay of the sizes.
-/

namespace Doradd

/-- The fields of `FileDispatcher` that `dispatch_batch` uses; `cursor` holds
`idx` and `read_head`. -/
structure FileDispatcher where
  cursor : Cursor
  prepareParseReadHead : Nat
  prepareProcReadHead : Nat
  handledReqCnt : Nat
  txnLogId : Nat
  deriving DecidableEq, Repr

namespace FileDispatcher

/-- `RPC_LATENCY` and `PREFETCH`. -/
structure Build where
  rpcLatency : Bool
  prefetch : Bool

inductive Event
  | prepare (a : Nat)
  | prefetch (a : Nat)
  | dispatch (a : Nat)
  deriving DecidableEq, Repr

/-- The records dispatched. -/
def dispatches (es : List Event) : List Nat :=
  es.filterMap fun
    | .dispatch a => some a
    | _ => none

def init (log : Log) : FileDispatcher := ⟨log.at 0, log.readTop, log.readTop, 0, 0⟩

/-- `n` iterations of a loop body. -/
def loop (body : FileDispatcher → FileDispatcher × Event) :
    Nat → FileDispatcher → FileDispatcher × List Event
  | 0, s => (s, [])
  | n + 1, s =>
    let (s₁, e) := body s
    let (s₂, es) := loop body n s₁
    (s₂, e :: es)

def prepareOne (log : Log) (s : FileDispatcher) : FileDispatcher × Event :=
  ({ s with prepareProcReadHead := s.prepareProcReadHead + log.recordSize },
    .prepare s.prepareProcReadHead)

def prefetchOne (log : Log) (s : FileDispatcher) : FileDispatcher × Event :=
  ({ s with prepareParseReadHead := s.prepareParseReadHead + log.recordSize },
    .prefetch s.prepareParseReadHead)

def dispatchOne (build : Build) (log : Log) (s : FileDispatcher) : FileDispatcher × Event :=
  ({ s with
      cursor := s.cursor.next log
      txnLogId := if build.rpcLatency then s.txnLogId + 1 else s.txnLogId },
    .dispatch s.cursor.readHead)

def rewind (log : Log) (s : FileDispatcher) : FileDispatcher :=
  if log.wrapLimit < s.cursor.idx then
    { s with
      cursor := ⟨0, log.readTop⟩
      prepareParseReadHead := log.readTop
      prepareProcReadHead := log.readTop }
  else s

def dispatchBatch (build : Build) (log : Log) (lookAhead : Nat) (s : FileDispatcher) :
    FileDispatcher × List Event :=
  let s₀ := rewind log s
  let (s₁, es₁) := loop (prepareOne log) lookAhead s₀
  let (s₂, es₂) := if build.prefetch then loop (prefetchOne log) lookAhead s₁ else (s₁, [])
  let (s₃, es₃) := loop (dispatchOne build log) lookAhead s₂
  ({ s₃ with handledReqCnt := (s₃.handledReqCnt + lookAhead) % 2 ^ 64 }, es₁ ++ es₂ ++ es₃)

/-- The loop of `run` on the sizes that `check_avail_cnts` returns. -/
def run (build : Build) (log : Log) : List Nat → FileDispatcher → FileDispatcher × List Event
  | [], s => (s, [])
  | b :: bs, s =>
    if build.rpcLatency = true ∧ rpcLogSize ≤ s.txnLogId then (s, [])
    else
      let (s₁, es₁) := dispatchBatch build log b s
      let (s₂, es₂) := run build log bs s₁
      (s₂, es₁ ++ es₂)

/-! ## The three loops -/

variable {build : Build} {log : Log} {s : FileDispatcher}

theorem dispatches_append (es es' : List Event) :
    dispatches (es ++ es') = dispatches es ++ dispatches es' := List.filterMap_append

/-- The preparing loop moves its own read head only. -/
theorem loop_prepareOne (log : Log) (n : Nat) (s : FileDispatcher) :
    (loop (prepareOne log) n s).1.cursor = s.cursor ∧
    (loop (prepareOne log) n s).1.txnLogId = s.txnLogId ∧
    dispatches (loop (prepareOne log) n s).2 = [] := by
  induction n generalizing s with
  | zero => exact ⟨rfl, rfl, rfl⟩
  | succ n ih => exact ih (prepareOne log s).1

theorem loop_prefetchOne (log : Log) (n : Nat) (s : FileDispatcher) :
    (loop (prefetchOne log) n s).1.cursor = s.cursor ∧
    (loop (prefetchOne log) n s).1.txnLogId = s.txnLogId ∧
    dispatches (loop (prefetchOne log) n s).2 = [] := by
  induction n generalizing s with
  | zero => exact ⟨rfl, rfl, rfl⟩
  | succ n ih => exact ih (prefetchOne log s).1

/-- The dispatching loop goes through consecutive records. -/
theorem loop_dispatchOne (build : Build) (n : Nat) {e : Nat} (hs : s.cursor = log.at e)
    (he : e + n ≤ log.readCount) :
    (loop (dispatchOne build log) n s).1.cursor = log.at (e + n) ∧
    (build.rpcLatency = true →
      (loop (dispatchOne build log) n s).1.txnLogId = s.txnLogId + n) ∧
    dispatches (loop (dispatchOne build log) n s).2 = (List.range' e n).map log.record := by
  induction n generalizing s e with
  | zero => exact ⟨hs, fun _ => rfl, rfl⟩
  | succ n ih =>
    have hnext : (dispatchOne build log s).1.cursor = log.at (e + 1) := by
      simp only [dispatchOne, hs]
      exact Cursor.next_at log e (by omega)
    obtain ⟨hc, ht, hd⟩ := ih hnext (by omega)
    refine ⟨?_, fun hb => ?_, ?_⟩
    · rw [show e + (n + 1) = e + 1 + n by omega]
      exact hc
    · have := ht hb
      simp only [dispatchOne, hb, if_true] at this
      simp only [loop, dispatchOne, hb, if_true]
      omega
    · rw [List.range'_succ, List.map_cons, ← hd]
      simp [loop, dispatchOne, dispatches, hs]

/-! ## Batches -/

/-- **One batch.** -/
theorem dispatchBatch_dispatches (build : Build) (hn : maxBatch ≤ log.readCount) {p : Pos} {b : Nat}
    (hs : s.cursor = log.at p.idx) (hb : p.start (spawnLimit log.readCount) + b ≤ log.readCount) :
    (dispatchBatch build log b s).1.cursor = log.at (p.next (spawnLimit log.readCount) b).idx ∧
    (build.rpcLatency = true → (dispatchBatch build log b s).1.txnLogId = s.txnLogId + b) ∧
    dispatches (dispatchBatch build log b s).2 =
      (List.range' (p.start (spawnLimit log.readCount)) b).map log.record := by
  have hr : (rewind log s).cursor = log.at (p.start (spawnLimit log.readCount)) ∧
      (rewind log s).txnLogId = s.txnLogId := by
    rw [rewind, Log.wrapLimit_eq hn, hs, Log.at_idx, Pos.start, spawnLimit]
    by_cases hlim : log.readCount - maxBatch < p.idx
    · rw [if_pos hlim, if_pos hlim, Log.at_zero]
      exact ⟨rfl, rfl⟩
    · rw [if_neg hlim, if_neg hlim]
      exact ⟨hs, rfl⟩
  obtain ⟨hc₁, ht₁, hd₁⟩ := loop_prepareOne log b (rewind log s)
  obtain ⟨hc₂, ht₂, hd₂⟩ := loop_prefetchOne log b (loop (prepareOne log) b (rewind log s)).1
  have hcur : (if build.prefetch then
      loop (prefetchOne log) b (loop (prepareOne log) b (rewind log s)).1
      else ((loop (prepareOne log) b (rewind log s)).1, [])).1.cursor =
      log.at (p.start (spawnLimit log.readCount)) := by
    cases build.prefetch
    · exact hc₁.trans hr.1
    · exact hc₂.trans (hc₁.trans hr.1)
  obtain ⟨hc₃, ht₃, hd₃⟩ := loop_dispatchOne build b hcur hb
  refine ⟨hc₃, fun h => ?_, ?_⟩
  · refine (ht₃ h).trans (congrArg (· + b) ?_)
    cases build.prefetch
    · exact ht₁.trans hr.2
    · exact ht₂.trans (ht₁.trans hr.2)
  · rw [dispatchBatch]
    simp only [dispatches_append, hd₁, hd₃]
    cases build.prefetch
    · rfl
    · simp [hd₂]

/-- **A run dispatches the abstract replay.**  In the `RPC_LATENCY` build the
requests have to fit in the log of arrival times. -/
theorem run_dispatches (build : Build) (hn : maxBatch ≤ log.readCount) (bs : List Nat)
    (hb : IsBatches bs) {p : Pos} (hs : s.cursor = log.at p.idx)
    (ht : build.rpcLatency = true → s.txnLogId + bs.sum ≤ rpcLogSize) :
    dispatches (run build log bs s).2 =
      (p.visits (spawnLimit log.readCount) bs).map log.record := by
  induction bs generalizing s p with
  | nil => rfl
  | cons b bs ih =>
    have hf := fits_spawn hn p hb
    obtain ⟨hc, hi, hd⟩ := dispatchBatch_dispatches build hn hs hf.1
    have hb₀ := (hb b List.mem_cons_self).1
    rw [List.sum_cons] at ht
    have hgo : ¬ (build.rpcLatency = true ∧ rpcLogSize ≤ s.txnLogId) := by
      rintro ⟨hr, hle⟩
      have := ht hr
      omega
    rw [run, if_neg hgo]
    simp only [dispatches_append, hd]
    rw [ih (fun c hc => hb c (List.mem_cons_of_mem b hc)) hc fun hr => by
      have := ht hr
      rw [hi hr]
      omega, ← List.map_append]
    rfl

end FileDispatcher

end Doradd
