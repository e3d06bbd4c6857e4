import Doradd.Lib.Word

/-!
# The mapped log and a cursor in it

The log file is a 4-byte record count followed by the marshalled records, all
of one size.  Every stage of the dispatcher keeps a record counter and a byte
pointer into it and rewinds both when the counter passes a limit.
-/

namespace Doradd

open Lib

/-! ## config.hpp -/

def maxBatch : Nat := 4
def rpcLogSize : Nat := 1000000
def channelSize : Nat := 2
def channelSizeIdxPref : Nat := 2

/-- Sizes that `check_avail_cnts` may return. -/
def IsBatches (bs : List Nat) : Prop := ∀ b ∈ bs, 1 ≤ b ∧ b ≤ maxBatch

instance (bs : List Nat) : Decidable (IsBatches bs) :=
  inferInstanceAs (Decidable (∀ b ∈ bs, 1 ≤ b ∧ b ≤ maxBatch))

theorem isBatches_nil : IsBatches [] := by
  intro b hb
  cases hb

theorem isBatches_append (bs cs : List Nat) :
    IsBatches (bs ++ cs) ↔ IsBatches bs ∧ IsBatches cs :=
  List.forall_mem_append

theorem isBatches_singleton (b : Nat) : IsBatches [b] ↔ 1 ≤ b ∧ b ≤ maxBatch := by
  simp [IsBatches]

theorem IsBatches.mono {bs cs : List Nat} (h : IsBatches cs) (hs : bs <+: cs) : IsBatches bs :=
  fun b hb => h b (hs.subset hb)

theorem IsBatches.sum_le {bs : List Nat} (h : IsBatches bs) : bs.sum ≤ bs.length * maxBatch := by
  induction bs with
  | nil => exact Nat.le_refl 0
  | cons b bs ih =>
    have hb := (h b List.mem_cons_self).2
    have hbs := ih fun c hc => h c (List.mem_cons_of_mem b hc)
    rw [List.sum_cons, List.length_cons, Nat.succ_mul]
    omega

/-- What `k` batches, or fewer, come to. -/
theorem IsBatches.sum_le_of_length {bs : List Nat} (h : IsBatches bs) {k : Nat}
    (hk : bs.length ≤ k) : bs.sum ≤ k * maxBatch :=
  Nat.le_trans h.sum_le (Nat.mul_le_mul_right maxBatch hk)

/-! ## The log -/

/-- The log after the constructors have read its count: `readCount` is the
32-bit count in the first four bytes, `readTop` the address just past it. -/
structure Log where
  readTop : Nat
  readCount : Nat
  recordSize : Nat
  recordSize_pos : 0 < recordSize
  readCount_lt : readCount < 2 ^ 32

/-- Six records of 128 bytes, mapped at address 0. -/
def exampleLog : Log :=
  ⟨4, 6, 128, Nat.zero_lt_succ 127, Nat.lt_of_sub_ne_zero (by decide)⟩

/-- Address of record `e`. -/
def Log.record (log : Log) (e : Nat) : Nat := log.readTop + e * log.recordSize

@[simp] theorem Log.record_inj (log : Log) (d e : Nat) :
    log.record d = log.record e ↔ d = e := by
  simp only [Log.record, Nat.add_left_cancel_iff]
  exact Nat.mul_left_inj (Nat.pos_iff_ne_zero.mp log.recordSize_pos)

theorem Log.record_succ (log : Log) (e : Nat) :
    log.record (e + 1) = log.record e + log.recordSize := by
  simp only [Log.record, Nat.add_mul, Nat.one_mul, Nat.add_assoc]

/-- `read_count - MAX_BATCH`, a 64-bit difference as `MAX_BATCH` is a `size_t`. -/
def Log.wrapLimit (log : Log) : Nat := wsub 64 log.readCount maxBatch

theorem Log.wrapLimit_eq {log : Log} (hn : maxBatch ≤ log.readCount) :
    log.wrapLimit = log.readCount - maxBatch :=
  wsub_of_le (Nat.lt_trans log.readCount_lt (by decide)) hn

/-! ## Cursors -/

/-- A `uint32_t` record counter and a byte pointer. -/
structure Cursor where
  idx : Nat
  readHead : Nat
  deriving DecidableEq, Repr

/-- The cursor standing at record `e`. -/
def Log.at (log : Log) (e : Nat) : Cursor := ⟨e, log.record e⟩

/-- `if (idx > limit) { read_head = read_top; idx = 0; }` -/
def Cursor.wrap (log : Log) (limit : Nat) (c : Cursor) : Cursor :=
  if limit < c.idx then ⟨0, log.readTop⟩ else c

/-- `read_head += ret; idx++;` -/
def Cursor.next (log : Log) (c : Cursor) : Cursor :=
  ⟨(c.idx + 1) % 2 ^ 32, c.readHead + log.recordSize⟩

@[simp] theorem Log.at_idx (log : Log) (e : Nat) : (log.at e).idx = e := rfl
@[simp] theorem Log.at_readHead (log : Log) (e : Nat) : (log.at e).readHead = log.record e := rfl

theorem Log.at_zero (log : Log) : log.at 0 = ⟨0, log.readTop⟩ := by
  simp [Log.at, Log.record]

theorem Cursor.wrap_at (log : Log) (limit e : Nat) :
    (log.at e).wrap log limit = log.at (if limit < e then 0 else e) := by
  unfold Cursor.wrap
  split
  · rename_i h
    rw [Log.at_idx] at h
    rw [if_pos h, Log.at_zero]
  · rename_i h
    rw [Log.at_idx] at h
    rw [if_neg h]

theorem Cursor.next_at (log : Log) (e : Nat) (he : e < log.readCount) :
    (log.at e).next log = log.at (e + 1) := by
  have hn := log.readCount_lt
  simp only [Cursor.next, Log.at, Log.record_succ, Cursor.mk.injEq, and_true]
  exact Nat.mod_eq_of_lt (by omega)

end Doradd
