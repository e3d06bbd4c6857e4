import Mathlib.Data.List.Basic
import Doradd.Dispatcher.Spawner

/-!
# Does the dispatched sequence depend on the batches?

The requests are cut into batches by their timing.  The wrap test of
`Spawner::run` is made between batches only, so it sees the cuts.

* `exists_run`: every list of batches has a run of the spawner to its end;
* `dispatch_independent_iff`: for a log of `n` records the first `T` dispatched
  records are the same for all ways to cut the requests exactly if
  `T ≤ n - MAX_BATCH + 1`, when no wrap test between the batches can fire.
-/

namespace Doradd.Spawner

open Lib

variable {rpcLatency : Bool} {log : Log}

/-! ## Every list of batches can be dispatched -/

/-- The prefetch loop runs to its end. -/
theorem run_prefetch (k : Nat) {tr : List Label} {s : Spawner}
    (h : (machine rpcLatency log).run tr = some s) (hp : s.pc = .prefetch)
    (hi : s.i + k = s.batchSz) :
    ∃ tr' s', (machine rpcLatency log).run tr' = some s' ∧ batches tr' = batches tr ∧
      s'.pc = .prefetch ∧ s'.i = s'.batchSz ∧ s'.batchSz = s.batchSz ∧
      s'.txnLogId = s.txnLogId := by
  induction k generalizing tr s with
  | zero => exact ⟨tr, s, h, rfl, hp, hi, rfl, rfl⟩
  | succ k ih =>
    have hl : (machine rpcLatency log).step s (.prefetch s.prepareReadHead) =
        some { s with prepareReadHead := s.prepareReadHead + log.recordSize, i := s.i + 1 } := by
      simp only [machine, step]
      rw [if_pos ⟨hp, by omega, trivial⟩]
    obtain ⟨tr', s', hr, hb, hrest⟩ := ih ((Machine.run_snoc _ tr _ _).mpr ⟨s, h, hl⟩) hp
      (by simp only; omega)
    refine ⟨tr', s', hr, ?_, hrest⟩
    rw [hb, batches_append]
    exact List.append_nil _

/-- The dispatch loop runs to its end. -/
theorem run_dispatch (k : Nat) {tr : List Label} {s : Spawner}
    (h : (machine rpcLatency log).run tr = some s) (hp : s.pc = .dispatch)
    (hi : s.i + k = s.batchSz) (ht : rpcLatency = true → s.txnLogId + k < 2 ^ 64) :
    ∃ tr' s', (machine rpcLatency log).run tr' = some s' ∧ batches tr' = batches tr ∧
      s'.pc = .dispatch ∧ s'.i = s'.batchSz ∧
      (rpcLatency = true → s'.txnLogId = s.txnLogId + k) := by
  induction k generalizing tr s with
  | zero => exact ⟨tr, s, h, rfl, hp, hi, fun _ => rfl⟩
  | succ k ih =>
    have hl : (machine rpcLatency log).step s
        (.dispatch s.cursor.readHead (if rpcLatency then some (s.txnLogId, 0) else none)) =
        some { s with
          cursor := s.cursor.next log
          i := s.i + 1
          txnLogId := if rpcLatency then (s.txnLogId + 1) % 2 ^ 64 else s.txnLogId } := by
      simp only [machine, step]
      rw [if_pos ⟨hp, by omega, trivial, by cases rpcLatency <;> rfl⟩]
    have hid : rpcLatency = true →
        (if rpcLatency then (s.txnLogId + 1) % 2 ^ 64 else s.txnLogId) = s.txnLogId + 1 := by
      intro hc
      have := ht hc
      rw [if_pos hc, Nat.mod_eq_of_lt (by omega)]
    obtain ⟨tr', s', hr, hb, hq, hi', hd⟩ := ih ((Machine.run_snoc _ tr _ _).mpr ⟨s, h, hl⟩) hp
      (by simp only; omega) (fun hc => by have := ht hc; simp only [hid hc]; omega)
    refine ⟨tr', s', hr, ?_, hq, hi', fun hc => ?_⟩
    · rw [hb, batches_append]
      exact List.append_nil _
    · rw [hd hc]
      simp only [hid hc]
      omega

/-- One batch from loop head to loop head. -/
theorem run_batch (b : Nat) {tr : List Label} {s : Spawner}
    (h : (machine rpcLatency log).run tr = some s) (hp : s.pc = .head)
    (hx : ¬ logExceeded rpcLatency s) (ht : rpcLatency = true → s.txnLogId + b < 2 ^ 64) :
    ∃ tr' s', (machine rpcLatency log).run tr' = some s' ∧ batches tr' = batches tr ++ [b] ∧
      s'.pc = .head ∧ (rpcLatency = true → s'.txnLogId = s.txnLogId + b) := by
  obtain ⟨s₁, hl₁, hp₁, hi₁, hb₁, ht₁⟩ : ∃ s₁, (machine rpcLatency log).step s (.front (some b)) =
      some s₁ ∧ s₁.pc = .prefetch ∧ s₁.i = 0 ∧ s₁.batchSz = b ∧ s₁.txnLogId = s.txnLogId := by
    simp only [machine, step]
    rw [if_pos ⟨hp, hx⟩]
    exact ⟨_, rfl, rfl, rfl, rfl, rfl⟩
  obtain ⟨tr₂, s₂, hr₂, hbs₂, hp₂, hi₂, hb₂, ht₂⟩ :=
    run_prefetch b ((Machine.run_snoc _ tr _ _).mpr ⟨s, h, hl₁⟩) hp₁ (by omega)
  have hl₃ : (machine rpcLatency log).step s₂ .exitPrefetch =
      some { s₂ with pc := .dispatch, i := 0 } := by
    simp only [machine, step]
    rw [if_pos ⟨hp₂, by omega⟩]
  obtain ⟨tr₄, s₄, hr₄, hbs₄, hp₄, hi₄, ht₄⟩ :=
    run_dispatch b ((Machine.run_snoc _ tr₂ _ _).mpr ⟨s₂, hr₂, hl₃⟩) rfl
      (by simp only; omega) (fun hc => by simp only; rw [ht₂, ht₁]; exact ht hc)
  have hl₅ : (machine rpcLatency log).step s₄ .pop = some { s₄ with pc := .head } := by
    simp only [machine, step]
    rw [if_pos ⟨hp₄, by omega⟩]
  refine ⟨_, _, (Machine.run_snoc _ tr₄ _ _).mpr ⟨s₄, hr₄, hl₅⟩, ?_, rfl, fun hc => ?_⟩
  · rw [batches_append, hbs₄, batches_append, hbs₂, batches_append]
    simp [batches]
  · rw [ht₄ hc, ht₂, ht₁]

/-- **Every list of batches has a complete run**, within the log of arrival
times in the build that keeps one. -/
theorem exists_run (rpcLatency : Bool) (log : Log) (bs : List Nat)
    (hr : rpcLatency = true → bs.sum ≤ rpcLogSize) :
    ∃ tr s, (machine rpcLatency log).run tr = some s ∧ s.pc = .head ∧ batches tr = bs ∧
      (rpcLatency = true → s.txnLogId = bs.sum) := by
  induction bs using List.reverseRecOn with
  | nil => exact ⟨[], _, rfl, rfl, rfl, fun _ => rfl⟩
  | append_singleton bs b ih =>
    rw [List.sum_append, List.sum_singleton] at hr ⊢
    obtain ⟨tr, s, h, hp, hb, ht⟩ := ih fun hc => Nat.le_trans (Nat.le_add_right _ b) (hr hc)
    have hx : ¬ logExceeded rpcLatency s := by
      rintro ⟨hc, hlt⟩
      have := hr hc
      rw [ht hc] at hlt
      omega
    obtain ⟨tr', s', h', hb', hp', ht'⟩ := run_batch b h hp hx fun hc => by
      have := hr hc
      rw [ht hc]
      simp only [rpcLogSize] at this
      omega
    exact ⟨tr', s', h', hp', by rw [hb', hb], fun hc => by rw [ht' hc, ht hc]⟩

/-! ## Independence -/

/-- Any two complete runs over `T` records in all dispatch the same records in
the same order, however the records were cut into batches. -/
def DispatchIndependent (rpcLatency : Bool) (log : Log) (T : Nat) : Prop :=
  ∀ tr tr' s s', (machine rpcLatency log).run tr = some s →
    (machine rpcLatency log).run tr' = some s' → s.pc = .head → s'.pc = .head →
    IsBatches (batches tr) → IsBatches (batches tr') →
    (batches tr).sum = T → (batches tr').sum = T → dispatched tr = dispatched tr'

/-- **Dispatch is independent of the batches exactly up to the first record at
which a wrap test can fire.** -/
theorem dispatch_independent_iff (rpcLatency : Bool) (log : Log) (T : Nat)
    (hn : maxBatch ≤ log.readCount) (hT : rpcLatency = true → T ≤ rpcLogSize) :
    DispatchIndependent rpcLatency log T ↔ T ≤ log.readCount - maxBatch + 1 := by
  constructor
  · intro hind
    by_contra hlong
    obtain ⟨bs, cs, hbs, hcs, hsb, hsc, hne⟩ :=
      visits_spawn_long hn (Nat.lt_of_not_le hlong)
    obtain ⟨tr, s, h, hp, hb, _⟩ :=
      exists_run rpcLatency log bs fun hc => by rw [hsb]; exact hT hc
    obtain ⟨tr', s', h', hp', hb', _⟩ :=
      exists_run rpcLatency log cs fun hc => by rw [hsc]; exact hT hc
    have he := hind tr tr' s s' h h' hp hp' (hb ▸ hbs) (hb' ▸ hcs) (hb ▸ hsb) (hb' ▸ hsc)
    rw [dispatched_idle hn h (hb ▸ hbs) hp, dispatched_idle hn h' (hb' ▸ hcs) hp', hb, hb'] at he
    exact hne (List.map_injective_iff.mpr (fun d e => (log.record_inj d e).mp) he)
  · intro hshort tr tr' s s' h h' hp hp' hb hb' hsum hsum'
    rw [dispatched_idle hn h hb hp, dispatched_idle hn h' hb' hp',
      (visits_spawn_short hb (by rw [hsum]; exact hshort)).1,
      (visits_spawn_short hb' (by rw [hsum']; exact hshort)).1, hsum, hsum']

/-- Three requests on a log of six records. -/
theorem dispatch_independent_three : DispatchIndependent false exampleLog 3 :=
  (dispatch_independent_iff false exampleLog 3 (by decide) (fun h => absurd h (by decide))).mpr
    (by decide)

/-- Four requests on a log of six records: one batch of four dispatches record
3 last, four batches of one wrap before it. -/
theorem dispatch_depends_on_batches :
    ¬ ∀ (log : Log) (T : Nat), maxBatch ≤ log.readCount → DispatchIndependent false log T := by
  intro h
  have he := h exampleLog 4 (by decide) (batchLabels exampleLog 0 4)
    (batchLabels exampleLog 0 1 ++ batchLabels exampleLog 1 1 ++ batchLabels exampleLog 2 1 ++
      batchLabels exampleLog 0 1) _ _ rfl rfl rfl rfl (by decide) (by decide) rfl rfl
  revert he
  decide

end Doradd.Spawner
