import Mathlib.Algebra.Order.BigOperators.Group.Finset
import Mathlib.Data.List.Induction
import Mathlib.Logic.Function.Basic
import Doradd.Lib.Chain
import Doradd.Lib.Machine
import Doradd.Profile.Core

/-!
# The profiled pipeline

A first core, any number of workers and a last core, each with a ring in front of the
next.  A run is any interleaving of their steps; a stage that spins on an empty ring or
in a push to a full one makes none.

* `Inv.step`: what holds of all stages and of all neighbours;
* `can_step`: as long as a stage is not through, some stage can make a step;
* `length_le`: no run goes on forever;
* `terminates_cleanly`: the pipeline, for any number of workers and of records.
-/

namespace Doradd.Profile

open Lib

/-! ## pipeline-profile/test.cc -/

/-- The arguments of `runPipeline`: the number of workers and the records. -/
structure Setup where
  cnt : Nat
  log : Records

/-- The stages, from the first core to the last, and `rings[k]` between stage `k` and the
next. -/
structure Pipeline where
  cores : Nat → Worker
  rings : Nat → Fifo Nat bufSz

/-- The stage that acts and what it does. -/
structure Label where
  core : Nat
  act : Act
  deriving DecidableEq, Repr

/-- What stage `k` needs of its rings and does to them. -/
def ringEffect (rings : Nat → Fifo Nat bufSz) (k : Nat) : Act → Option (Nat → Fifo Nat bufSz)
  | .front =>
    match k with
    | 0 => some rings
    | k + 1 => if (rings k).front.isSome then some rings else none
  | .push => ((rings k).push batchSz).map (Function.update rings k)
  | .pop =>
    match k with
    | 0 => none
    | k + 1 => some (Function.update rings k (rings k).pop)
  | _ => some rings

def hasInput (k : Nat) : Bool := 1 ≤ k

def hasOutput (c : Setup) (k : Nat) : Bool := k ≤ c.cnt

def step (c : Setup) (s : Pipeline) (l : Label) : Option Pipeline :=
  if l.core ≤ c.cnt + 1 then do
    let w ← (s.cores l.core).step c.log (hasInput l.core) (hasOutput c l.core) l.act
    let rings ← ringEffect s.rings l.core l.act
    some ⟨Function.update s.cores l.core w, rings⟩
  else none

def machine (c : Setup) : Machine Pipeline Label :=
  ⟨⟨fun _ => Worker.init c.log, fun _ => .empty⟩, step c⟩

/-! ## Steps -/

/-- What a step does to the ring in front of the stage, to the one behind it, and to the
others. -/
theorem ringEffect_spec {rings rings' : Nat → Fifo Nat bufSz} {k : Nat} {act : Act}
    (h : ringEffect rings k act = some rings') :
    Worker.PushEffect act (rings k) (rings' k) ∧
      (∀ j, k = j + 1 → Worker.PopEffect act (rings j) (rings' j)) ∧
      ∀ j, j ≠ k → k ≠ j + 1 → rings' j = rings j := by
  cases act with
  | push =>
    simp only [ringEffect, Option.map_eq_some_iff] at h
    obtain ⟨q, hq, rfl⟩ := h
    refine ⟨?_, fun j hj => ?_, fun j hj _ => Function.update_of_ne hj _ _⟩
    · rw [Worker.PushEffect, if_pos rfl, Function.update_self]
      exact hq
    · rw [Worker.PopEffect, if_neg nofun, Function.update_of_ne (by omega)]
      exact ⟨rfl, nofun⟩
  | pop =>
    cases k with
    | zero => simp [ringEffect] at h
    | succ k =>
      simp only [ringEffect, Option.some.injEq] at h
      subst h
      refine ⟨?_, fun j hj => ?_, fun j _ hj => Function.update_of_ne (by omega) _ _⟩
      · rw [Worker.PushEffect, if_neg nofun, Function.update_of_ne (by omega)]
      · obtain rfl : k = j := Nat.succ.inj hj
        rw [Worker.PopEffect, if_pos rfl, Function.update_self]
  | front =>
    have hsame : rings' = rings ∧ ∀ j, k = j + 1 → (rings j).items ≠ [] := by
      cases k with
      | zero =>
        simp only [ringEffect, Option.some.injEq] at h
        exact ⟨h.symm, nofun⟩
      | succ k =>
        simp only [ringEffect, Option.ite_none_right_eq_some, Option.some.injEq] at h
        obtain ⟨hf, rfl⟩ := h
        refine ⟨rfl, fun j hj => ?_⟩
        obtain rfl : k = j := Nat.succ.inj hj
        obtain ⟨a, ha⟩ := Option.isSome_iff_exists.mp hf
        rw [Fifo.items_of_front ha]
        exact List.cons_ne_nil _ _
    obtain ⟨rfl, hne⟩ := hsame
    exact ⟨rfl, fun j hj => ⟨rfl, fun _ => hne j hj⟩, fun _ _ _ => rfl⟩
  | _ =>
    simp only [ringEffect, Option.some.injEq] at h
    subst h
    exact ⟨rfl, fun j _ => ⟨rfl, nofun⟩, fun _ _ _ => rfl⟩

variable {c : Setup} {s s' : Pipeline} {l : Label} {tr : List Label}

/-- Everything that a step can do. -/
theorem step_cases (h : step c s l = some s') :
    l.core ≤ c.cnt + 1 ∧
      (∃ w, (s.cores l.core).step c.log (hasInput l.core) (hasOutput c l.core) l.act = some w ∧
        s'.cores = Function.update s.cores l.core w) ∧
      ringEffect s.rings l.core l.act = some s'.rings := by
  simp only [step, Option.ite_none_right_eq_some, Option.bind_eq_bind, Option.bind_eq_some_iff,
    Option.some.injEq] at h
  obtain ⟨hk, w, hw, rings, hrings, rfl⟩ := h
  exact ⟨hk, ⟨w, hw, rfl⟩, hrings⟩

theorem hasInput_succ (k : Nat) : hasInput (k + 1) = true := by
  simp [hasInput]

theorem hasOutput_of_le {k : Nat} (h : k ≤ c.cnt) : hasOutput c k = true := by
  simp [hasOutput, h]

theorem hasInput_or_hasOutput (c : Setup) (k : Nat) :
    hasInput k = true ∨ hasOutput c k = true := by
  simp only [hasInput, hasOutput, decide_eq_true_eq]
  omega

/-! ## The invariant -/

structure Inv (c : Setup) (s : Pipeline) : Prop where
  ok : ∀ k ≤ c.cnt + 1, (s.cores k).Ok c.log (hasInput k) (hasOutput c k)
  link : ∀ k ≤ c.cnt, (s.cores k).Link (s.rings k) (s.cores (k + 1))

theorem Inv.step (hlog : batchSz ≤ c.log.readCnt) (hi : Inv c s) (h : step c s l = some s') :
    Inv c s' := by
  obtain ⟨hk, ⟨w, hw, hcores⟩, hrings⟩ := step_cases h
  obtain ⟨hpush, hpop, hothers⟩ := ringEffect_spec hrings
  constructor
  · intro k hk'
    rw [hcores]
    by_cases hkl : k = l.core
    · subst hkl
      rw [Function.update_self]
      exact (hi.ok _ hk).step hlog (hasInput_or_hasOutput c _) hw
    · rw [Function.update_of_ne hkl]
      exact hi.ok k hk'
  · intro k hk'
    have hlink := hi.link k hk'
    rw [hcores]
    by_cases hup : l.core = k
    · subst hup
      have hok := hi.ok _ hk
      rw [hasOutput_of_le hk'] at hw hok
      rw [Function.update_self, Function.update_of_ne (by omega)]
      exact hlink.up_step hok hw hpush
    · rw [Function.update_of_ne (Ne.symm hup)]
      by_cases hdown : l.core = k + 1
      · have hok := hi.ok _ hk
        rw [hdown] at hw hok ⊢
        rw [hasInput_succ] at hw hok
        rw [Function.update_self]
        exact hlink.down_step hok hw (hpop k hdown)
      · rw [Function.update_of_ne (Ne.symm hdown), hothers k (Ne.symm hup) hdown]
        exact hlink

/-- Every run keeps the invariant. -/
theorem run_inv (hlog : batchSz ≤ c.log.readCnt) (h : (machine c).run tr = some s) : Inv c s := by
  refine Machine.run_induction (P := fun _ s => Inv c s) ?_ ?_ h
  · exact ⟨fun k _ => Worker.ok_init, fun k _ => Worker.link_init⟩
  · intro tr s l s' _ hi hl
    exact hi.step hlog hl

/-- **Every stage reads records below `read_cnt`.** -/
theorem reads_inside (hlog : batchSz ≤ c.log.readCnt) (h : (machine c).run tr = some s)
    {k address : Nat} (hmem : ⟨k, .process address⟩ ∈ tr) :
    ∃ r < c.log.readCnt, address = c.log.readTop + txnSize * r := by
  obtain ⟨pre, post, rfl⟩ := List.append_of_mem hmem
  obtain ⟨t, t', hpre, hstep, -⟩ := Machine.run_split h
  obtain ⟨hk, ⟨w, hw, -⟩, -⟩ := step_cases hstep
  exact Worker.step_reads ((run_inv hlog hpre).ok k hk) hw

/-! ## Nobody gets stuck -/

/-- The ring in front of the stage is full. -/
def WaitsForRoom (c : Setup) (s : Pipeline) (k : Nat) : Prop :=
  k ≤ c.cnt ∧ (s.cores k).pc = .push ∧ (s.rings k).items.length = bufSz

/-- The ring behind the stage is empty. -/
def WaitsForItem (s : Pipeline) : Nat → Prop
  | 0 => False
  | k + 1 => (s.cores (k + 1)).pc = .head ∧ (s.cores (k + 1)).terminate = false ∧
      (s.rings k).items = []

def CanMove (c : Setup) (s : Pipeline) (k : Nat) : Prop := ∃ act, (step c s ⟨k, act⟩).isSome

theorem canMove_of {k : Nat} (act : Act) (hk : k ≤ c.cnt + 1)
    (hw : ((s.cores k).step c.log (hasInput k) (hasOutput c k) act).isSome)
    (hrings : (ringEffect s.rings k act).isSome) : CanMove c s k := by
  obtain ⟨w, hw⟩ := Option.isSome_iff_exists.mp hw
  obtain ⟨rings, hrings⟩ := Option.isSome_iff_exists.mp hrings
  refine ⟨act, ?_⟩
  simp [step, hk, hw, hrings]

/-- A stage that is not through moves or waits. -/
theorem Inv.blocked (hi : Inv c s) {k : Nat} (hk : k ≤ c.cnt + 1)
    (hdone : (s.cores k).pc ≠ .terminated) (hmove : ¬ CanMove c s k) :
    WaitsForRoom c s k ∨ WaitsForItem s k := by
  have hok := hi.ok k hk
  cases hpc : (s.cores k).pc with
  | head =>
    cases hterm : (s.cores k).terminate with
    | true =>
      exact absurd (canMove_of .exit hk (by simp [Worker.step, hpc, hterm]) rfl) hmove
    | false =>
      have hw : ((s.cores k).step c.log (hasInput k) (hasOutput c k) .front).isSome := by
        simp [Worker.step, hpc, hterm]
      cases k with
      | zero => exact absurd (canMove_of .front hk hw rfl) hmove
      | succ k =>
        refine Or.inr ⟨hpc, hterm, ?_⟩
        by_contra hne
        refine hmove (canMove_of .front hk hw ?_)
        simp [ringEffect, Fifo.front, hne]
  | dispatch =>
    by_cases hi : (s.cores k).i < batchSz
    · refine absurd (canMove_of (.process (s.cores k).readHead) hk ?_ rfl) hmove
      simp [Worker.step, hpc, hi]
    · have hle := (hok.batch hpc).1
      refine absurd (canMove_of .finish hk ?_ rfl) hmove
      simp [Worker.step, hpc]
      omega
  | push =>
    have hout := hok.output hpc
    simp only [hasOutput, decide_eq_true_eq] at hout
    refine Or.inl ⟨hout, hpc, ?_⟩
    by_contra hne
    have hlt : (s.rings k).items.length < bufSz := lt_of_le_of_ne (s.rings k).bounded hne
    refine hmove (canMove_of .push hk (by simp [Worker.step, hpc]) ?_)
    simp [ringEffect, Fifo.push, hlt]
  | pop =>
    have hin := hok.input hpc
    cases k with
    | zero => cases hin
    | succ k => exact absurd (canMove_of .pop hk (by simp [Worker.step, hpc]) rfl) hmove
  | terminated => exact absurd hpc hdone

/-- Who waits for whom. -/
theorem Inv.chain (hi : Inv c s) : ∃ ch : Chain (c.cnt + 1),
    (ch.done = fun k => (s.cores k).pc = .terminated) ∧ ch.canMove = CanMove c s := by
  refine ⟨⟨fun k => (s.cores k).pc = .terminated, CanMove c s, WaitsForRoom c s, WaitsForItem s,
    fun k hk => hi.blocked hk, id, ?_, ?_, ?_⟩, rfl, rfl⟩
  · rintro ⟨hk, -⟩
    omega
  · rintro k hk ⟨-, hpc, hfull⟩
    have hlink := (hi.link k (by omega)).sum
    have hcount := (hi.ok k (by omega)).count
    rw [hfull] at hlink
    constructor
    · -- a stage that is through has popped all there is
      intro hdone
      have hcount' := (hi.ok (k + 1) (by omega)).count
      simp only [Worker.CountOk, hpc, hdone] at hcount hcount'
      simp [Worker.pushedCnt, Worker.poppedCnt, hpc, hdone, batchSz, bufSz] at hlink hcount
      omega
    · rintro ⟨-, -, hempty⟩
      rw [hempty] at hfull
      cases hfull
  · rintro k hk ⟨hpc, hterm, hempty⟩ hdone
    have hlink := (hi.link k (by omega)).sum
    have hcount := (hi.ok k (by omega)).count
    rw [Worker.terminate_false_iff] at hterm
    simp only [Worker.CountOk, hdone] at hcount
    simp [Worker.pushedCnt, Worker.poppedCnt, hpc, hdone, hempty] at hlink
    omega

/-- **No state is stuck before all stages are through.** -/
theorem Inv.can_step (hi : Inv c s) {k : Nat} (hk : k ≤ c.cnt + 1)
    (hdone : (s.cores k).pc ≠ .terminated) : ∃ l, (Profile.step c s l).isSome := by
  obtain ⟨ch, hchdone, hchmove⟩ := hi.chain
  have hk' : ¬ ch.done k := by
    rw [hchdone]
    exact hdone
  obtain ⟨j, -, hj⟩ := ch.progress hk hk'
  rw [hchmove] at hj
  obtain ⟨act, hact⟩ := hj
  exact ⟨⟨j, act⟩, hact⟩

/-! ## The end -/

/-- **A run is no longer than the batches of all stages take.** -/
theorem length_le (hlog : batchSz ≤ c.log.readCnt) (h : (machine c).run tr = some s) :
    tr.length ≤ (c.cnt + 2) * (12 * (terminationCount / batchSz) + 1) := by
  have htime : tr.length ≤ ∑ k ∈ Finset.range (c.cnt + 2), (s.cores k).time := by
    refine Machine.run_induction (P := fun tr s =>
      tr.length ≤ ∑ k ∈ Finset.range (c.cnt + 2), (s.cores k).time) (Nat.zero_le _) ?_ h
    intro tr s l s' hrun ih hl
    obtain ⟨hk, ⟨w, hw, hcores⟩, -⟩ := step_cases hl
    have hlt := Worker.time_step ((run_inv hlog hrun).ok _ hk) hw
    have hsum : ∑ k ∈ Finset.range (c.cnt + 2), (s.cores k).time <
        ∑ k ∈ Finset.range (c.cnt + 2), (s'.cores k).time := by
      refine Finset.sum_lt_sum (fun k _ => ?_) ⟨l.core, Finset.mem_range.mpr (by omega), ?_⟩
      · rw [hcores]
        by_cases hkl : k = l.core
        · rw [hkl, Function.update_self]
          exact hlt.le
        · rw [Function.update_of_ne hkl]
      · rw [hcores, Function.update_self]
        exact hlt
    rw [List.length_append, List.length_singleton]
    omega
  refine htime.trans ?_
  have hle := Finset.sum_le_card_nsmul (Finset.range (c.cnt + 2)) (fun k => (s.cores k).time)
    (12 * (terminationCount / batchSz) + 1) fun k hk =>
      Worker.time_le ((run_inv hlog h).ok k (Nat.lt_succ_iff.mp (Finset.mem_range.mp hk)))
  rw [Finset.card_range] at hle
  exact hle

/-- When all stages are through, nothing is left over. -/
theorem Inv.at_end (hi : Inv c s) (hdone : ∀ k ≤ c.cnt + 1, (s.cores k).pc = .terminated) :
    (∀ k ≤ c.cnt, (s.rings k).items = []) ∧
      ∀ k ≤ c.cnt + 1, (s.cores k).processedCnt = terminationCount := by
  have hcount : ∀ k ≤ c.cnt + 1, (s.cores k).processedCnt = terminationCount := by
    intro k hk
    have h := (hi.ok k hk).count
    simp only [Worker.CountOk, hdone k hk] at h
    exact h
  refine ⟨fun k hk => ?_, hcount⟩
  have hlink := (hi.link k hk).sum
  simp only [Worker.pushedCnt, Worker.poppedCnt, hdone k (by omega), hdone (k + 1) (by omega),
    hcount k (by omega), hcount (k + 1) (by omega), reduceCtorEq, or_self, if_false,
    Nat.left_eq_add, Nat.mul_eq_zero] at hlink
  exact List.length_eq_zero_iff.mp (hlink.resolve_left (by decide))

/-- **The pipeline, for any number of workers and of records, in any interleaving.** -/
theorem terminates_cleanly (hlog : batchSz ≤ c.log.readCnt)
    (h : (machine c).run tr = some s) :
    (∀ k ≤ c.cnt, (s.cores (k + 1)).processedCnt ≤ (s.cores k).processedCnt ∧
      (s.cores k).processedCnt ≤ (s.cores (k + 1)).processedCnt + (bufSz + 1) * batchSz) ∧
    (∀ k address, ⟨k, .process address⟩ ∈ tr →
      ∃ r < c.log.readCnt, address = c.log.readTop + txnSize * r) ∧
    (∀ k ≤ c.cnt + 1, (s.cores k).pc ≠ .terminated → ∃ l, ((machine c).step s l).isSome) ∧
    ((∀ k ≤ c.cnt + 1, (s.cores k).pc = .terminated) →
      (∀ k ≤ c.cnt, (s.rings k).items = []) ∧
        ∀ k ≤ c.cnt + 1, (s.cores k).processedCnt = terminationCount) ∧
    tr.length ≤ (c.cnt + 2) * (12 * (terminationCount / batchSz) + 1) := by
  have hi := run_inv hlog h
  exact ⟨fun k hk => (hi.link k hk).gap, fun _ _ hmem => reads_inside hlog h hmem,
    fun _ hk hdone => hi.can_step hk hdone, hi.at_end, length_le hlog h⟩

/-- One worker, and as many records as fill a batch. -/
def exampleSetup : Setup := ⟨1, ⟨0, 8⟩⟩

/-- A stage goes through eight records from record 0 on. -/
def stageBatch (k : Nat) : List Label :=
  ⟨k, .front⟩ :: (List.range batchSz).map (fun r => ⟨k, .process (txnSize * r)⟩) ++ [⟨k, .finish⟩]

/-- A batch goes from the first core to the last; the first core has begun with the next one
before the worker takes this. -/
def oneBatch : List Label :=
  stageBatch 0 ++ [⟨0, .push⟩, ⟨0, .front⟩, ⟨0, .process 0⟩] ++ stageBatch 1 ++
    [⟨1, .push⟩, ⟨1, .pop⟩] ++ stageBatch 2 ++ [⟨2, .pop⟩]

/-- The last core has counted the batch, and the first core has not stopped. -/
theorem oneBatch_run : ∃ s, (machine exampleSetup).run oneBatch = some s ∧
    (s.cores 2).processedCnt = 8 ∧ (s.cores 0).pc ≠ .terminated := by
  have h : ((machine exampleSetup).run oneBatch).any (fun s =>
      (s.cores 2).processedCnt = 8 ∧ (s.cores 0).pc ≠ .terminated) = true := by
    decide +kernel
  simpa only [Option.any_eq_true, decide_eq_true_eq] using h

theorem terminates_cleanly_start : ∃ s, (machine exampleSetup).run oneBatch = some s ∧
    (s.cores 2).processedCnt = 8 ∧
    (∀ k ≤ 1, (s.cores (k + 1)).processedCnt ≤ (s.cores k).processedCnt) ∧
    (∀ k address, ⟨k, .process address⟩ ∈ oneBatch → ∃ r < 8, address = 0 + txnSize * r) ∧
    ∃ l, ((machine exampleSetup).step s l).isSome := by
  obtain ⟨s, hrun, hcount, hpc⟩ := oneBatch_run
  obtain ⟨hgap, hreads, hgoes, -⟩ := terminates_cleanly (c := exampleSetup) (Nat.le_refl 8) hrun
  exact ⟨s, hrun, hcount, fun k hk => (hgap k hk).1, hreads, hgoes 0 (Nat.zero_le _) hpc⟩

end Doradd.Profile
