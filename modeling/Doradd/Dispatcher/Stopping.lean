import Doradd.Dispatcher.Batching
import Doradd.Dispatcher.FileDispatcher

/-!
# Where the dispatchers stop

In the `RPC_LATENCY` build the handler makes `RPC_LOG_SIZE` requests.  Both dispatchers
test a count of their dispatches at the head of their loops, one with `>=` and the
other with `>`.

* `FileDispatcher.stops`: the first test holds where all requests are dispatched;
* `Spawner.not_stops`: the second does not, and holds nowhere else either.
-/

namespace Doradd

open Lib

/-! ## FileDispatcher -/

namespace FileDispatcher

/-- At the heads of its loop `run` leaves where `RPC_LOG_SIZE` requests have been
dispatched, and nowhere else. -/
def Stops (log : Log) (bs : List Nat) : Prop :=
  ∀ prefetch pre, pre <+: bs →
    (rpcLogSize ≤ (run ⟨true, prefetch⟩ log pre (init log)).1.txnLogId ↔
      (dispatches (run ⟨true, prefetch⟩ log pre (init log)).2).length = rpcLogSize)

variable {build : Build}

theorem loop_counts (log : Log) (hb : build.rpcLatency = true) (n : Nat) (s : FileDispatcher) :
    (loop (dispatchOne build log) n s).1.txnLogId = s.txnLogId + n ∧
      (dispatches (loop (dispatchOne build log) n s).2).length = n := by
  induction n generalizing s with
  | zero => exact ⟨rfl, rfl⟩
  | succ n ih =>
    obtain ⟨ht, hd⟩ := ih (dispatchOne build log s).1
    have hone : (dispatchOne build log s).1.txnLogId = s.txnLogId + 1 := if_pos hb
    rw [hone] at ht
    refine ⟨?_, congrArg Nat.succ hd⟩
    exact ht.trans (Nat.add_right_comm _ 1 n)

/-- A batch of `b` requests counts `b`, whatever the log is. -/
theorem dispatchBatch_counts (log : Log) (hb : build.rpcLatency = true) (b : Nat)
    (s : FileDispatcher) :
    (dispatchBatch build log b s).1.txnLogId = s.txnLogId + b ∧
      (dispatches (dispatchBatch build log b s).2).length = b := by
  have hrewind : (rewind log s).txnLogId = s.txnLogId := by
    unfold rewind
    split <;> rfl
  obtain ⟨-, hprep, hprepNone⟩ := loop_prepareOne log b (rewind log s)
  obtain ⟨-, hpref, hprefNone⟩ := loop_prefetchOne log b (loop (prepareOne log) b (rewind log s)).1
  unfold dispatchBatch
  simp only [dispatches_append, List.length_append, hprepNone, List.length_nil, Nat.zero_add]
  cases build.prefetch with
  | false =>
    simp only [Bool.false_eq_true, if_false]
    obtain ⟨ht, hd⟩ := loop_counts log hb b (loop (prepareOne log) b (rewind log s)).1
    rw [ht, hd, hprep, hrewind]
    exact ⟨rfl, Nat.zero_add b⟩
  | true =>
    simp only [if_true, hprefNone, List.length_nil, Nat.zero_add]
    obtain ⟨ht, hd⟩ := loop_counts log hb b
      (loop (prefetchOne log) b (loop (prepareOne log) b (rewind log s)).1).1
    rw [ht, hd, hpref, hprep, hrewind]
    exact ⟨rfl, rfl⟩

theorem run_counts (log : Log) (hb : build.rpcLatency = true) {bs : List Nat}
    (hbs : IsBatches bs) {s : FileDispatcher} (h : s.txnLogId + bs.sum ≤ rpcLogSize) :
    (run build log bs s).1.txnLogId = s.txnLogId + bs.sum ∧
      (dispatches (run build log bs s).2).length = bs.sum := by
  induction bs generalizing s with
  | nil => exact ⟨rfl, rfl⟩
  | cons b bs ih =>
    have hpos := (hbs b List.mem_cons_self).1
    rw [List.sum_cons] at h
    have hgo : ¬ (build.rpcLatency = true ∧ rpcLogSize ≤ s.txnLogId) := by
      rintro ⟨-, hle⟩
      omega
    obtain ⟨ht, hd⟩ := dispatchBatch_counts log hb b s
    obtain ⟨ht', hd'⟩ := ih (fun c hc => hbs c (List.mem_cons_of_mem b hc))
      (s := (dispatchBatch build log b s).1) (by omega)
    rw [run, if_neg hgo, List.sum_cons]
    simp only [dispatches_append, List.length_append, hd, hd', ht', ht]
    exact ⟨Nat.add_assoc _ _ _, trivial⟩

theorem stops (log : Log) {bs : List Nat} (hbs : IsBatches bs) (hsum : bs.sum = rpcLogSize) :
    Stops log bs := by
  rintro prefetch pre ⟨post, rfl⟩
  rw [List.sum_append] at hsum
  have hpre : (init log).txnLogId + pre.sum ≤ rpcLogSize := by
    show 0 + pre.sum ≤ rpcLogSize
    omega
  have hb : (⟨true, prefetch⟩ : Build).rpcLatency = true := rfl
  obtain ⟨ht, hd⟩ := run_counts log hb ((isBatches_append pre post).mp hbs).1 hpre
  have hzero : (init log).txnLogId = 0 := rfl
  rw [ht, hd, hzero]
  omega

end FileDispatcher

/-! ## Spawner -/

namespace Spawner

/-- At the heads of its loop `run` leaves where `RPC_LOG_SIZE` requests have been
dispatched, and nowhere else. -/
def Stops (log : Log) (bs : List Nat) : Prop :=
  ∀ tr s, (machine true log).run tr = some s → batches tr <+: bs → s.pc = .head →
    (logExceeded true s ↔ (dispatched tr).length = rpcLogSize)

variable {log : Log} {s : Spawner}

/-- At a head the dispatches are those of the batches. -/
theorem head_counts {tr : List Label} (h : (machine true log).run tr = some s)
    (hp : s.pc = .head) : (dispatched tr).length = (batches tr).sum ∧
      s.txnLogId = (batches tr).sum % 2 ^ 64 := by
  have hlen := length_dispatched h
  have htodo : s.todo = 0 := by
    simp only [todo, hp]
  rw [htodo, Nat.add_zero] at hlen
  rw [txnLogId_eq h, hlen]
  exact ⟨rfl, rfl⟩

/-- The test is not met as long as there are no more requests than the handler makes. -/
theorem not_logExceeded {tr : List Label} (h : (machine true log).run tr = some s)
    (hp : s.pc = .head) (hle : (batches tr).sum ≤ rpcLogSize) : ¬ logExceeded true s := by
  rintro ⟨-, hlt⟩
  have hmod := Nat.mod_le (batches tr).sum (2 ^ 64)
  rw [(head_counts h hp).2] at hlt
  omega

/-- **The spawner does not stop** at the head where all requests are dispatched. -/
theorem not_stops (log : Log) {bs : List Nat} (hsum : bs.sum = rpcLogSize) : ¬ Stops log bs := by
  intro hstops
  obtain ⟨tr, s, hrun, hp, hbs, -⟩ := exists_run true log bs fun _ => Nat.le_of_eq hsum
  have hlen := (head_counts hrun hp).1
  rw [hbs, hsum] at hlen
  have hpre : batches tr <+: bs := hbs ▸ List.prefix_refl _
  have hle : (batches tr).sum ≤ rpcLogSize := by
    rw [hbs, hsum]
  exact not_logExceeded hrun hp hle ((hstops tr s hrun hpre hp).mpr hlen)

end Spawner

/-- Both dispatchers stop where all requests are dispatched. -/
def BothStop (log : Log) (bs : List Nat) : Prop :=
  FileDispatcher.Stops log bs ∧ Spawner.Stops log bs

/-- **The dispatchers never stop at the same point**, whatever the log and the batches
are: `FileDispatcher` stops where it should, and `Spawner` at no head. -/
theorem never_stop_together (log : Log) (bs : List Nat) (hbs : IsBatches bs)
    (hsum : bs.sum = rpcLogSize) : ¬ BothStop log bs ∧ FileDispatcher.Stops log bs ∧
      ∀ tr s, (Spawner.machine true log).run tr = some s → Spawner.batches tr <+: bs →
        s.pc = .head → ¬ Spawner.logExceeded true s := by
  refine ⟨fun h => Spawner.not_stops log hsum h.2, FileDispatcher.stops log hbs hsum, ?_⟩
  rintro tr s hrun ⟨post, hpost⟩ hp
  rw [← hpost, List.sum_append] at hsum
  exact Spawner.not_logExceeded hrun hp (by omega)

/-- Batches of four. -/
theorem fours_batches : IsBatches (List.replicate 250000 4) := by
  intro b hb
  rw [List.eq_of_mem_replicate hb]
  decide

theorem fours_sum : (List.replicate 250000 4).sum = rpcLogSize := List.sum_replicate_nat

theorem never_stop_together_fours : ¬ BothStop exampleLog (List.replicate 250000 4) :=
  (never_stop_together exampleLog _ fours_batches fours_sum).1

/-- All requests are dispatched in batches of four, and the spawner goes on. -/
theorem spawner_stays : IsBatches (List.replicate 250000 4) ∧
    (List.replicate 250000 4).sum = rpcLogSize ∧
      ¬ BothStop exampleLog (List.replicate 250000 4) :=
  ⟨fours_batches, fours_sum, fun h => Spawner.not_stops exampleLog fours_sum h.2⟩

end Doradd
