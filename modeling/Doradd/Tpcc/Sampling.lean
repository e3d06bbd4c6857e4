import Mathlib.Algebra.Ring.Nat
import Doradd.Lib.Schedule

/-!
# Sampling of latencies

A worker counts the transactions it completes, and takes the latency of those that find
its counter at a multiple of `SAMPLE_RATE`.  A Payment looks before it counts itself, a
NewOrder after.

* `entries_balance`: the entries taken, over any sequence, in terms of the kinds of the
  two transactions around each multiple;
* `sampled_iff`: when one transaction in `SAMPLE_RATE` is sampled.
-/

namespace Doradd.Tpcc

open Lib

def sampleRate : UInt64 := 10

/-! ## The counter of a worker -/

/-- The counter of a worker and its latency log. -/
structure TxCounter where
  txCnt : UInt64
  logArr : List UInt32
deriving Repr, DecidableEq

namespace TxCounter

/-- The counter as its constructor leaves it. -/
def new : TxCounter := ⟨0, []⟩

def incr (c : TxCounter) : TxCounter := { c with txCnt := c.txCnt + 1 }

/-- `logDuration` is what the clock says since the start of the transaction. -/
def logLatency (logDuration : UInt32) (c : TxCounter) : TxCounter :=
  if c.txCnt % sampleRate = 0 then { c with logArr := c.logArr ++ [logDuration] } else c

end TxCounter

inductive TxnType where
  | newOrder
  | payment
deriving Repr, DecidableEq

/-- A completed transaction: its kind, and how long it took. -/
structure Completed where
  txnType : TxnType
  logDuration : UInt32
deriving Repr, DecidableEq

/-- The end of a transaction's body. -/
def complete (t : Completed) (c : TxCounter) : TxCounter :=
  match t.txnType with
  | .newOrder => c.incr.logLatency t.logDuration
  | .payment => (c.logLatency t.logDuration).incr

/-- One transaction in `SAMPLE_RATE` was sampled, rounded down or up. -/
def Sampled (ts : List Completed) : Prop :=
  let entries := (exec complete ts .new).logArr.length
  entries = ts.length / sampleRate.toNat ∨
    entries = (ts.length + (sampleRate.toNat - 1)) / sampleRate.toNat

instance (ts : List Completed) : Decidable (Sampled ts) := inferInstanceAs (Decidable (_ ∨ _))

/-! ## What happens at a multiple of the rate -/

/-- The counter is at a multiple of the rate. -/
def AtMark (n : UInt64) : Prop := n % sampleRate = 0

instance (n : UInt64) : Decidable (AtMark n) := inferInstanceAs (Decidable (_ = _))

/-- The next transaction is a Payment. -/
def BeforePayment (ts : List Completed) : Prop := ts.head?.map Completed.txnType = some .payment

instance (ts : List Completed) : Decidable (BeforePayment ts) :=
  inferInstanceAs (Decidable (_ = _))

/-- The multiples that the counter reaches, from `n` on. -/
def marks (n : UInt64) : List Completed → Nat
  | [] => 0
  | _ :: ts => (if AtMark (n + 1) then 1 else 0) + marks (n + 1) ts

/-- Those between a NewOrder and a Payment: both are sampled. -/
def doubled (n : UInt64) : List Completed → Nat
  | [] => 0
  | t :: ts =>
    (if AtMark (n + 1) ∧ t.txnType = .newOrder ∧ BeforePayment ts then 1 else 0) +
      doubled (n + 1) ts

/-- Those after a Payment with no Payment to follow: nobody is sampled. -/
def skipped (n : UInt64) : List Completed → Nat
  | [] => 0
  | t :: ts =>
    (if AtMark (n + 1) ∧ t.txnType = .payment ∧ ¬ BeforePayment ts then 1 else 0) +
      skipped (n + 1) ts

/-- A Payment that finds the counter at its start at a multiple. -/
def atStart (n : UInt64) (ts : List Completed) : Nat :=
  if AtMark n ∧ BeforePayment ts then 1 else 0

/-! ## Entries of the log -/

namespace TxCounter

variable (c : TxCounter) (logDuration : UInt32)

@[simp] theorem incr_txCnt : c.incr.txCnt = c.txCnt + 1 := rfl

@[simp] theorem incr_logArr : c.incr.logArr = c.logArr := rfl

@[simp] theorem logLatency_txCnt : (c.logLatency logDuration).txCnt = c.txCnt := by
  unfold logLatency
  split <;> rfl

@[simp] theorem logLatency_logArr_length : (c.logLatency logDuration).logArr.length =
    c.logArr.length + if AtMark c.txCnt then 1 else 0 := by
  by_cases h : c.txCnt % sampleRate = 0
  · have hm : AtMark c.txCnt := h
    simp [logLatency, h, hm]
  · have hm : ¬ AtMark c.txCnt := h
    simp [logLatency, h, hm]

end TxCounter

@[simp] theorem complete_txCnt (t : Completed) (c : TxCounter) :
    (complete t c).txCnt = c.txCnt + 1 := by
  unfold complete
  cases t.txnType <;> simp

/-- A NewOrder looks at the counter after itself, a Payment before. -/
def samples (n : UInt64) : TxnType → Nat
  | .newOrder => if AtMark (n + 1) then 1 else 0
  | .payment => if AtMark n then 1 else 0

theorem complete_logArr_length (t : Completed) (c : TxCounter) :
    (complete t c).logArr.length = c.logArr.length + samples c.txCnt t.txnType := by
  unfold complete
  cases t.txnType with
  | newOrder => exact TxCounter.logLatency_logArr_length _ _
  | payment => exact TxCounter.logLatency_logArr_length _ _

/-- A transaction is sampled for the multiple before it or the one after it: what the one
after it lacks is skipped, what it has too much is doubled. -/
theorem samples_balance (n : UInt64) (t : Completed) (ts : List Completed) :
    samples n t.txnType + atStart (n + 1) ts +
        (if AtMark (n + 1) ∧ t.txnType = .payment ∧ ¬ BeforePayment ts then 1 else 0) =
      atStart n (t :: ts) +
        (if AtMark (n + 1) ∧ t.txnType = .newOrder ∧ BeforePayment ts then 1 else 0) +
        (if AtMark (n + 1) then 1 else 0) := by
  have hstart : atStart n (t :: ts) = if AtMark n ∧ t.txnType = .payment then 1 else 0 := by
    simp [atStart, BeforePayment]
  rw [hstart, atStart]
  cases t.txnType with
  | newOrder => by_cases hm : AtMark (n + 1) <;> by_cases hp : BeforePayment ts <;>
      simp [samples, hm, hp]
  | payment => by_cases hm : AtMark (n + 1) <;> by_cases hp : BeforePayment ts <;>
      simp [samples, hm, hp]

/-- **The entries taken are one for each multiple reached, and one at the start, with those
that are taken twice and without those that are skipped.** -/
theorem entries_balance (ts : List Completed) (c : TxCounter) :
    (exec complete ts c).logArr.length + skipped c.txCnt ts =
      c.logArr.length + atStart c.txCnt ts + doubled c.txCnt ts + marks c.txCnt ts := by
  induction ts generalizing c with
  | nil => simp [skipped, atStart, doubled, marks, BeforePayment]
  | cons t ts ih =>
    have hstep := complete_logArr_length t c
    have hmark := samples_balance c.txCnt t ts
    have hrest := ih (complete t c)
    rw [complete_txCnt] at hrest
    rw [exec_cons]
    simp only [skipped, doubled, marks]
    omega

/-! ## One in `SAMPLE_RATE` -/

/-- As long as the counter does not wrap, it reaches the multiples it should. -/
theorem marks_eq (ts : List Completed) (n : UInt64) (h : n.toNat + ts.length < 2 ^ 64) :
    marks n ts + n.toNat / 10 = (n.toNat + ts.length) / 10 := by
  induction ts generalizing n with
  | nil => simp [marks]
  | cons t ts ih =>
    rw [List.length_cons] at h ⊢
    have hn : (n + 1).toNat = n.toNat + 1 := by
      rw [UInt64.toNat_add, UInt64.toNat_one]
      omega
    have hmark : AtMark (n + 1) ↔ (n.toNat + 1) % 10 = 0 := by
      rw [AtMark, ← UInt64.toNat_inj, UInt64.toNat_mod, hn]
      rfl
    have hrest := ih (n + 1) (by omega)
    rw [hn] at hrest
    rw [marks]
    split
    · rename_i hm
      have := hmark.mp hm
      omega
    · rename_i hm
      have : ¬ (n.toNat + 1) % 10 = 0 := fun h => hm (hmark.mpr h)
      omega

/-- The kinds of the transactions around the multiples make up for each other. -/
def Balanced (ts : List Completed) : Prop :=
  atStart 0 ts + doubled 0 ts + marks 0 ts = skipped 0 ts + ts.length / sampleRate.toNat ∨
    ts.length % sampleRate.toNat ≠ 0 ∧
      atStart 0 ts + doubled 0 ts + marks 0 ts =
        skipped 0 ts + ts.length / sampleRate.toNat + 1

instance (ts : List Completed) : Decidable (Balanced ts) := inferInstanceAs (Decidable (_ ∨ _))

/-- **One transaction in `SAMPLE_RATE` is sampled if the kinds of the transactions around
the multiples make up for each other.**  The multiples reached are as many as there should
be as long as the counter does not wrap. -/
theorem sampled_iff (ts : List Completed) :
    (Sampled ts ↔ Balanced ts) ∧
      (ts.length < 2 ^ 64 → marks 0 ts = ts.length / sampleRate.toNat) := by
  have hrate : sampleRate.toNat = 10 := rfl
  constructor
  · have hbal := entries_balance ts .new
    simp only [TxCounter.new, List.length_nil] at hbal
    unfold Sampled Balanced TxCounter.new
    simp only [hrate]
    omega
  · intro hlen
    have hmarks := marks_eq ts 0 (by simpa using hlen)
    simpa [hrate] using hmarks

def exampleCompleted (newOrders payments : Nat) : List Completed :=
  List.replicate payments ⟨.payment, 7⟩ ++ List.replicate newOrders ⟨.newOrder, 7⟩

/-- Nine Payments and two NewOrders are eleven transactions and two entries; nine Payments and
a NewOrder are out of balance. -/
theorem sampled_iff_nine :
    Sampled (exampleCompleted 2 9) ∧ ¬ Sampled (exampleCompleted 1 9) ∧
      marks 0 (exampleCompleted 2 9) = 1 :=
  ⟨(sampled_iff (exampleCompleted 2 9)).1.mpr (by decide),
    fun h => absurd ((sampled_iff (exampleCompleted 1 9)).1.mp h) (by decide),
    (sampled_iff (exampleCompleted 2 9)).2 (by decide)⟩

/-- A NewOrder after nine Payments is sampled, as is the first of them. -/
theorem tenth_sampled_again : ¬ Sampled (exampleCompleted 1 9) := by
  decide

end Doradd.Tpcc
