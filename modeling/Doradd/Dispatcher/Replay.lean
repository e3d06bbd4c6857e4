import Mathlib.Data.List.Induction
import Doradd.Dispatcher.Log

/-!
# Replaying a log in batches, abstractly

What a stage of the dispatcher is for, on record indices alone: it is given
batch sizes one after another and goes through that many consecutive records,
starting again at record 0 when the index has passed a limit.  The limit `lim p`
may depend on the size `p` of the batch before, as it does in the indexer.

* `Pos.after`, `Pos.batches`, `Pos.visits`: where a list of batches leads and
  which records it covers;
* `Pos.Fits`: no batch of the list reaches past the log;
* `fits_spawn`: with the limit `n - MAX_BATCH` every list of batches fits.
-/

namespace Doradd

/-- Where a stage stands between two batches: the size of the last batch and
the index of the next record. -/
structure Pos where
  prev : Nat
  idx : Nat

namespace Pos

variable (lim : Nat → Nat)

/-- The record at which the next batch starts. -/
def start (p : Pos) : Nat := if lim p.prev < p.idx then 0 else p.idx

def next (p : Pos) (b : Nat) : Pos := ⟨b, p.start lim + b⟩

def after (p : Pos) (bs : List Nat) : Pos := bs.foldl (next lim) p

/-- The records of each batch. -/
def batches (p : Pos) : List Nat → List (List Nat)
  | [] => []
  | b :: bs => List.range' (p.start lim) b :: (p.next lim b).batches bs

def visits (p : Pos) (bs : List Nat) : List Nat := (p.batches lim bs).flatten

/-- No batch reaches past record `n`. -/
def Fits (n : Nat) (p : Pos) : List Nat → Prop
  | [] => True
  | b :: bs => p.start lim + b ≤ n ∧ (p.next lim b).Fits n bs

variable {lim}

theorem after_snoc (p : Pos) (bs : List Nat) (b : Nat) :
    p.after lim (bs ++ [b]) = (p.after lim bs).next lim b := by
  simp [after]

theorem batches_snoc (p : Pos) (bs : List Nat) (b : Nat) :
    p.batches lim (bs ++ [b]) =
      p.batches lim bs ++ [List.range' ((p.after lim bs).start lim) b] := by
  induction bs generalizing p with
  | nil => rfl
  | cons c bs ih =>
    rw [List.cons_append, batches, ih]
    rfl

theorem visits_snoc (p : Pos) (bs : List Nat) (b : Nat) :
    p.visits lim (bs ++ [b]) =
      p.visits lim bs ++ List.range' ((p.after lim bs).start lim) b := by
  simp [visits, batches_snoc]

theorem fits_snoc (n : Nat) (p : Pos) (bs : List Nat) (b : Nat) :
    p.Fits lim n (bs ++ [b]) ↔ p.Fits lim n bs ∧ (p.after lim bs).start lim + b ≤ n := by
  induction bs generalizing p with
  | nil => simp [Fits, after]
  | cons c bs ih =>
    rw [List.cons_append, Fits, Fits, ih, and_assoc]
    rfl

theorem Fits.mono {n : Nat} {p : Pos} {bs cs : List Nat} (h : p.Fits lim n cs) (hs : bs <+: cs) :
    p.Fits lim n bs := by
  obtain ⟨ds, rfl⟩ := hs
  induction ds using List.reverseRecOn with
  | nil => simpa using h
  | append_singleton ds d ih =>
    rw [← List.append_assoc, fits_snoc] at h
    exact ih h.1

/-- Limits that agree on the sizes of the batches make no difference. -/
theorem fits_congr {lim' : Nat → Nat} {n : Nat} {bs : List Nat}
    (hlim : ∀ b ∈ bs, lim b = lim' b) {p p' : Pos} (hp : p.start lim = p'.start lim') :
    p.Fits lim n bs ↔ p'.Fits lim' n bs := by
  induction bs generalizing p p' with
  | nil => exact Iff.rfl
  | cons b bs ih =>
    have hnext : (p.next lim b).start lim = (p'.next lim' b).start lim' := by
      rw [next, next, hp]
      exact if_congr (by rw [hlim b List.mem_cons_self]) rfl rfl
    rw [Fits, Fits, hp, ih (fun c hc => hlim c (List.mem_cons_of_mem b hc)) hnext]

variable (lim) in
theorem start_le (p : Pos) : p.start lim ≤ p.idx := by
  unfold start
  split <;> omega

theorem batches_append (p : Pos) (bs cs : List Nat) :
    p.batches lim (bs ++ cs) = p.batches lim bs ++ (p.after lim bs).batches lim cs := by
  induction bs generalizing p with
  | nil => rfl
  | cons b bs ih =>
    rw [List.cons_append, batches, ih, batches]
    rfl

theorem visits_append (p : Pos) (bs cs : List Nat) :
    p.visits lim (bs ++ cs) = p.visits lim bs ++ (p.after lim bs).visits lim cs := by
  rw [visits, batches_append, List.flatten_append]
  rfl

variable (lim) in
theorem batches_isPrefix (p : Pos) {bs cs : List Nat} (h : bs <+: cs) :
    p.batches lim bs <+: p.batches lim cs := by
  obtain ⟨ds, rfl⟩ := h
  exact ⟨_, (batches_append p bs ds).symm⟩

variable (lim) in
theorem visits_isPrefix (p : Pos) {bs cs : List Nat} (h : bs <+: cs) :
    p.visits lim bs <+: p.visits lim cs := by
  obtain ⟨ds, rfl⟩ := h
  exact ⟨_, (visits_append p bs ds).symm⟩

/-- Batches that fit cover records of the log only. -/
theorem Fits.visits_lt {n : Nat} {p : Pos} {bs : List Nat} (h : p.Fits lim n bs) :
    ∀ e ∈ p.visits lim bs, e < n := by
  induction bs generalizing p with
  | nil => simp [visits, batches]
  | cons b bs ih =>
    intro e he
    rw [visits, batches, List.flatten_cons, List.mem_append, List.mem_range'_1] at he
    rcases he with he | he
    · have := h.1
      omega
    · exact ih h.2 e he

/-- Testing twice is testing once. -/
theorem start_start (p : Pos) : (⟨p.prev, p.start lim⟩ : Pos).start lim = p.start lim := by
  unfold start
  split <;> simp_all

end Pos

/-! ## The limit of the spawner, the prefetcher and the file dispatcher -/

/-- `read_count - MAX_BATCH`, whatever the batch before was. -/
def spawnLimit (n : Nat) : Nat → Nat := fun _ => n - maxBatch

theorem spawnLimit_eq {log : Log} (hn : maxBatch ≤ log.readCount) :
    (fun _ : Nat => log.wrapLimit) = spawnLimit log.readCount :=
  funext fun _ => Log.wrapLimit_eq hn

theorem start_spawn_le (n : Nat) (p : Pos) : p.start (spawnLimit n) ≤ n - maxBatch := by
  unfold Pos.start spawnLimit
  split <;> omega

theorem fits_spawn {n : Nat} (hn : maxBatch ≤ n) (p : Pos) {bs : List Nat} (h : IsBatches bs) :
    p.Fits (spawnLimit n) n bs := by
  induction bs generalizing p with
  | nil => trivial
  | cons b bs ih =>
    have hs := start_spawn_le n p
    have hb := h b List.mem_cons_self
    exact ⟨by omega, ih _ fun c hc => h c (List.mem_cons_of_mem b hc)⟩

/-- **No wrap, no choice.**  Up to `n - MAX_BATCH + 1` records the batches only
cut the records of the log in order. -/
theorem visits_spawn_short {n : Nat} {bs : List Nat} (h : IsBatches bs)
    (hs : bs.sum ≤ n - maxBatch + 1) :
    (⟨0, 0⟩ : Pos).visits (spawnLimit n) bs = List.range' 0 bs.sum ∧
      ((⟨0, 0⟩ : Pos).after (spawnLimit n) bs).idx = bs.sum := by
  induction bs using List.reverseRecOn with
  | nil => exact ⟨rfl, rfl⟩
  | append_singleton bs b ih =>
    rw [isBatches_append, isBatches_singleton] at h
    rw [List.sum_append, List.sum_singleton] at hs
    obtain ⟨hv, hi⟩ := ih h.1 (by omega)
    have hst : ((⟨0, 0⟩ : Pos).after (spawnLimit n) bs).start (spawnLimit n) = bs.sum := by
      rw [Pos.start, hi, if_neg (by simp only [spawnLimit]; omega)]
    rw [Pos.visits_snoc, Pos.after_snoc, Pos.next, hst, hv, List.sum_append, List.sum_singleton]
    refine ⟨?_, rfl⟩
    have := @List.range'_append_1 0 bs.sum b
    rwa [Nat.zero_add] at this

/-- **Past that, a choice.**  Single records wrap right after record
`n - MAX_BATCH`; a batch of two that covers that record goes on to the next. -/
theorem visits_spawn_long {n T : Nat} (hn : maxBatch ≤ n) (hT : n - maxBatch + 1 < T) :
    ∃ bs cs, IsBatches bs ∧ IsBatches cs ∧ bs.sum = T ∧ cs.sum = T ∧
      (⟨0, 0⟩ : Pos).visits (spawnLimit n) bs ≠ (⟨0, 0⟩ : Pos).visits (spawnLimit n) cs := by
  obtain ⟨m, rfl⟩ : ∃ m, n = m + maxBatch := ⟨n - maxBatch, by omega⟩
  obtain ⟨r, rfl⟩ : ∃ r, T = m + 2 + r := ⟨T - (m + 2), by omega⟩
  have hones : ∀ k, IsBatches (List.replicate k 1) := by
    intro k b hb
    rw [List.eq_of_mem_replicate hb]
    decide
  have hsum : ∀ k, (List.replicate k 1).sum = k := by simp
  obtain ⟨hv₁, hi₁⟩ := visits_spawn_short (n := m + maxBatch) (hones (m + 1))
    (by rw [hsum]; omega)
  obtain ⟨hv₀, hi₀⟩ := visits_spawn_short (n := m + maxBatch) (hones m) (by rw [hsum]; omega)
  rw [hsum] at hv₁ hi₁ hv₀ hi₀
  refine ⟨List.replicate (m + 1) 1 ++ 1 :: List.replicate r 1,
    List.replicate m 1 ++ 2 :: List.replicate r 1, ?_, ?_, ?_, ?_, ?_⟩
  · exact (isBatches_append _ _).mpr ⟨hones _, hones (r + 1)⟩
  · rw [isBatches_append]
    refine ⟨hones m, fun b hb => ?_⟩
    rcases List.mem_cons.mp hb with rfl | hb
    · decide
    · exact hones r b hb
  · rw [List.sum_append, List.sum_cons, hsum, hsum]
    omega
  · rw [List.sum_append, List.sum_cons, hsum, hsum]
    omega
  · -- after the same `m + 1` records one run wraps and the other does not
    have hst₁ : ((⟨0, 0⟩ : Pos).after (spawnLimit (m + maxBatch)) (List.replicate (m + 1) 1)).start
        (spawnLimit (m + maxBatch)) = 0 := by
      rw [Pos.start, hi₁, if_pos (by simp only [spawnLimit]; omega)]
    have hst₀ : ((⟨0, 0⟩ : Pos).after (spawnLimit (m + maxBatch)) (List.replicate m 1)).start
        (spawnLimit (m + maxBatch)) = m := by
      rw [Pos.start, hi₀, if_neg (by simp only [spawnLimit]; omega)]
    rw [Pos.visits_append, Pos.visits_append, hv₁, hv₀, Pos.visits, Pos.visits, Pos.batches,
      Pos.batches, hst₁, hst₀]
    have hr : List.range' 0 (m + 1) = List.range' 0 m ++ [m] := by
      have := @List.range'_append_1 0 m 1
      rw [Nat.zero_add] at this
      exact this.symm
    intro he
    rw [hr, List.append_assoc, List.append_right_inj] at he
    simp [List.range'] at he

end Doradd
