import Doradd.Lib.Fifo

/-!
# A stage of the profiled pipeline

`FirstCore`, `Worker` and `LastCore` go through the records in batches of eight until
they have processed `TERMINATION_COUNT` of them.  A stage looks at the item in front of
it, pushes one on when the batch is done, and pops its own only then.

* `Worker.Ok`: what holds of a stage between any two of its steps;
* `Worker.step_reads`: it reads records below `read_cnt`;
* `Worker.Link`: what holds of two neighbours and the ring between them.
-/

namespace Doradd.Profile

open Lib

/-! ## pipeline-profile/core.hpp -/

def bufSz : Nat := 4
def batchSz : Nat := 8
def terminationCount : Nat := 40000000

/-- `sizeof(TxnMarshalled)` -/
def txnSize : Nat := 64

/-- `read_top` and `read_cnt` -/
structure Records where
  readTop : Nat
  readCnt : Nat

/-- Where a stage is in its loop. -/
inductive Pc
  | head
  | dispatch
  | push
  | pop
  | terminated
  deriving DecidableEq, Repr

/-- The fields of a stage, its place in the loop, and the `i` of `dispatch_batch`. -/
structure Worker where
  cnt : Nat
  processedCnt : Nat
  readHead : Nat
  pc : Pc
  i : Nat
  deriving DecidableEq, Repr

/-- The actions of `run`. -/
inductive Act
  | exit
  | front
  | process (address : Nat)
  | finish
  | push
  | pop
  deriving DecidableEq, Repr

namespace Worker

variable (log : Records)

def init : Worker := ⟨0, 0, log.readTop, .head, 0⟩

def terminate (w : Worker) : Bool := terminationCount ≤ w.processedCnt

/-- The wrap at the head of `dispatch_batch`. -/
def rewind (w : Worker) : Worker :=
  if (log.readCnt : Int) - batchSz < w.cnt then { w with readHead := log.readTop, cnt := 0 }
  else w

/-- A stage by itself; a first core has no ring to pop from, a last core none to push to. -/
def step (hasInput hasOutput : Bool) (w : Worker) : Act → Option Worker
  | .exit => if w.pc = .head ∧ w.terminate = true then some { w with pc := .terminated } else none
  | .front =>
    if w.pc = .head ∧ w.terminate = false then
      some { w.rewind log with pc := .dispatch, i := 0 }
    else none
  | .process address =>
    if w.pc = .dispatch ∧ w.i < batchSz ∧ address = w.readHead then
      some { w with readHead := w.readHead + txnSize, cnt := w.cnt + 1, i := w.i + 1 }
    else none
  | .finish =>
    if w.pc = .dispatch ∧ w.i = batchSz then
      some { w with
        processedCnt := w.processedCnt + batchSz
        pc := if hasOutput then .push else .pop }
    else none
  | .push =>
    if w.pc = .push then some { w with pc := if hasInput then .pop else .head } else none
  | .pop => if w.pc = .pop then some { w with pc := .head } else none

/-! ## One stage -/

/-- What a stage has pushed on, in transactions. -/
def pushedCnt (w : Worker) : Nat :=
  if w.pc = .push then w.processedCnt - batchSz else w.processedCnt

/-- What it has popped. -/
def poppedCnt (w : Worker) : Nat :=
  if w.pc = .push ∨ w.pc = .pop then w.processedCnt - batchSz else w.processedCnt

/-- It has looked at an item and not popped it yet. -/
def Holds (w : Worker) : Prop := w.pc = .dispatch ∨ w.pc = .push ∨ w.pc = .pop

/-- How far a stage has come in its counting. -/
def CountOk (w : Worker) : Prop :=
  match w.pc with
  | .head => w.processedCnt ≤ terminationCount
  | .dispatch => w.processedCnt < terminationCount
  | .push | .pop => batchSz ≤ w.processedCnt ∧ w.processedCnt ≤ terminationCount
  | .terminated => w.processedCnt = terminationCount

structure Ok (hasInput hasOutput : Bool) (w : Worker) : Prop where
  readHead : w.readHead = log.readTop + txnSize * w.cnt
  cnt : w.cnt ≤ log.readCnt
  batch : w.pc = .dispatch → w.i ≤ batchSz ∧ w.cnt + batchSz ≤ log.readCnt + w.i
  whole : batchSz ∣ w.processedCnt
  count : w.CountOk
  input : w.pc = .pop → hasInput = true
  output : w.pc = .push → hasOutput = true

variable {log} {hasInput hasOutput : Bool} {w w' : Worker} {act : Act}

/-- What a step can do. -/
theorem step_eq_some : w.step log hasInput hasOutput act = some w' ↔
    match act with
    | .exit => (w.pc = .head ∧ w.terminate = true) ∧ { w with pc := .terminated } = w'
    | .front =>
      (w.pc = .head ∧ w.terminate = false) ∧ { w.rewind log with pc := .dispatch, i := 0 } = w'
    | .process address =>
      (w.pc = .dispatch ∧ w.i < batchSz ∧ address = w.readHead) ∧
        { w with readHead := w.readHead + txnSize, cnt := w.cnt + 1, i := w.i + 1 } = w'
    | .finish =>
      (w.pc = .dispatch ∧ w.i = batchSz) ∧
        { w with
          processedCnt := w.processedCnt + batchSz
          pc := if hasOutput then .push else .pop } = w'
    | .push => w.pc = .push ∧ { w with pc := if hasInput then .pop else .head } = w'
    | .pop => w.pc = .pop ∧ { w with pc := .head } = w' := by
  cases act <;> simp only [step, Option.ite_none_right_eq_some, Option.some.injEq]

theorem ok_init : (init log).Ok log hasInput hasOutput where
  readHead := rfl
  cnt := Nat.zero_le _
  batch := by
    intro h
    cases h
  whole := Nat.dvd_zero _
  count := Nat.zero_le _
  input := by
    intro h
    cases h
  output := by
    intro h
    cases h

theorem terminate_iff : w.terminate = true ↔ terminationCount ≤ w.processedCnt := by
  simp [terminate]

theorem terminate_false_iff : w.terminate = false ↔ w.processedCnt < terminationCount := by
  simp [terminate]

@[simp] theorem rewind_processedCnt (w : Worker) :
    (w.rewind log).processedCnt = w.processedCnt := by
  unfold rewind
  split <;> rfl

/-- After the wrap there is room for a batch. -/
theorem rewind_spec (hlog : batchSz ≤ log.readCnt)
    (hhead : w.readHead = log.readTop + txnSize * w.cnt) :
    (w.rewind log).readHead = log.readTop + txnSize * (w.rewind log).cnt ∧
      (w.rewind log).cnt + batchSz ≤ log.readCnt := by
  unfold rewind
  split
  · exact ⟨rfl, by simpa using hlog⟩
  · rename_i hle
    exact ⟨hhead, by omega⟩

/-- **One step.** -/
theorem Ok.step (hlog : batchSz ≤ log.readCnt) (hio : hasInput = true ∨ hasOutput = true)
    (h : w.Ok log hasInput hasOutput) (hs : w.step log hasInput hasOutput act = some w') :
    w'.Ok log hasInput hasOutput := by
  have hcount := h.count
  rw [step_eq_some] at hs
  cases act with
  | exit =>
    obtain ⟨⟨hpc, hterm⟩, rfl⟩ := hs
    rw [terminate_iff] at hterm
    simp only [CountOk, hpc] at hcount
    exact ⟨h.readHead, h.cnt, nofun, h.whole, Nat.le_antisymm hcount hterm, nofun, nofun⟩
  | front =>
    obtain ⟨⟨hpc, hterm⟩, rfl⟩ := hs
    rw [terminate_false_iff] at hterm
    obtain ⟨hhead, hroom⟩ := rewind_spec hlog h.readHead
    have hproc : (w.rewind log).processedCnt = w.processedCnt := w.rewind_processedCnt
    have hwhole := h.whole
    rw [← hproc] at hwhole hterm
    exact ⟨hhead, by simp only; omega, fun _ => ⟨Nat.zero_le _, hroom⟩, hwhole, hterm, nofun, nofun⟩
  | process address =>
    obtain ⟨⟨hpc, hi, -⟩, rfl⟩ := hs
    obtain ⟨-, hroom⟩ := h.batch hpc
    have hhead := h.readHead
    refine ⟨?_, by simp only; omega, fun _ => ⟨hi, by simp only; omega⟩, h.whole, ?_, ?_, ?_⟩
    · simp only [hhead, Nat.mul_add, Nat.mul_one, Nat.add_assoc]
    · simp only [CountOk, hpc] at hcount ⊢
      exact hcount
    · intro hp
      simp only [hpc] at hp
      cases hp
    · intro hp
      simp only [hpc] at hp
      cases hp
  | finish =>
    obtain ⟨⟨hpc, hi⟩, rfl⟩ := hs
    have hwhole := h.whole
    have hsum : batchSz ∣ w.processedCnt + batchSz := Nat.dvd_add hwhole (Nat.dvd_refl _)
    simp only [CountOk, hpc] at hcount
    have hle : batchSz ≤ w.processedCnt + batchSz ∧
        w.processedCnt + batchSz ≤ terminationCount := by
      simp only [batchSz, terminationCount] at hwhole hcount ⊢
      omega
    cases hasOutput with
    | true => exact ⟨h.readHead, h.cnt, nofun, hsum, hle, nofun, fun _ => rfl⟩
    | false =>
      exact ⟨h.readHead, h.cnt, nofun, hsum, hle, fun _ => hio.resolve_right nofun, nofun⟩
  | push =>
    obtain ⟨hpc, rfl⟩ := hs
    simp only [CountOk, hpc] at hcount
    cases hasInput with
    | true => exact ⟨h.readHead, h.cnt, nofun, h.whole, hcount, fun _ => rfl, nofun⟩
    | false => exact ⟨h.readHead, h.cnt, nofun, h.whole, hcount.2, nofun, nofun⟩
  | pop =>
    obtain ⟨hpc, rfl⟩ := hs
    simp only [CountOk, hpc] at hcount
    exact ⟨h.readHead, h.cnt, nofun, h.whole, hcount.2, nofun, nofun⟩

/-- **A stage reads records below `read_cnt`.** -/
theorem step_reads {address : Nat} (h : w.Ok log hasInput hasOutput)
    (hs : w.step log hasInput hasOutput (.process address) = some w') :
    ∃ r < log.readCnt, address = log.readTop + txnSize * r := by
  obtain ⟨⟨hpc, hi, rfl⟩, -⟩ := step_eq_some.mp hs
  obtain ⟨-, hroom⟩ := h.batch hpc
  exact ⟨w.cnt, by omega, h.readHead⟩

/-! ## Counting -/

theorem pushedCnt_near (w : Worker) :
    w.pushedCnt ≤ w.processedCnt ∧ w.processedCnt ≤ w.pushedCnt + batchSz := by
  unfold pushedCnt
  split <;> omega

theorem poppedCnt_near (w : Worker) :
    w.poppedCnt ≤ w.processedCnt ∧ w.processedCnt ≤ w.poppedCnt + batchSz := by
  unfold poppedCnt
  split <;> omega

theorem poppedCnt_of_not_holds (h : ¬ w.Holds) : w.poppedCnt = w.processedCnt :=
  if_neg fun hpc => h (Or.inr hpc)

/-- A step pushes what it says it pushes. -/
theorem pushedCnt_step (h : w.Ok log hasInput true) (hs : w.step log hasInput true act = some w') :
    w'.pushedCnt = w.pushedCnt + if act = .push then batchSz else 0 := by
  have hcount := h.count
  rw [step_eq_some] at hs
  cases act with
  | push =>
    obtain ⟨hpc, rfl⟩ := hs
    simp only [CountOk, hpc] at hcount
    cases hasInput <;> simp [pushedCnt, hpc] <;> omega
  | _ =>
    obtain ⟨hpc, rfl⟩ := hs
    simp [pushedCnt, hpc]

/-- It pops what it says it pops. -/
theorem poppedCnt_step (h : w.Ok log true hasOutput)
    (hs : w.step log true hasOutput act = some w') :
    w'.poppedCnt = w.poppedCnt + if act = .pop then batchSz else 0 := by
  have hcount := h.count
  rw [step_eq_some] at hs
  cases act with
  | pop =>
    obtain ⟨hpc, rfl⟩ := hs
    simp only [CountOk, hpc] at hcount
    simp [poppedCnt, hpc]
    omega
  | finish =>
    obtain ⟨hpc, rfl⟩ := hs
    cases hasOutput <;> simp [poppedCnt, hpc]
  | _ =>
    obtain ⟨hpc, rfl⟩ := hs
    simp [poppedCnt, hpc]

/-- It holds an item from the time it looks at it until it pops it. -/
theorem holds_step (hs : w.step log hasInput hasOutput act = some w') (h : w'.Holds) :
    act = .front ∨ w.Holds ∧ act ≠ .pop := by
  rw [step_eq_some] at hs
  cases act with
  | front => exact Or.inl rfl
  | process address => exact Or.inr ⟨Or.inl hs.1.1, nofun⟩
  | finish => exact Or.inr ⟨Or.inl hs.1.1, nofun⟩
  | push => exact Or.inr ⟨Or.inr (Or.inl hs.1), nofun⟩
  | exit =>
    obtain ⟨-, rfl⟩ := hs
    simp [Holds] at h
  | pop =>
    obtain ⟨-, rfl⟩ := hs
    simp [Holds] at h

/-! ## Time -/

/-- The steps that a stage with both rings has made by now: twelve in a batch. -/
def time (w : Worker) : Nat :=
  match w.pc with
  | .head => 12 * (w.processedCnt / batchSz)
  | .dispatch => 12 * (w.processedCnt / batchSz) + 1 + w.i
  | .push => 12 * (w.processedCnt / batchSz) - 2
  | .pop => 12 * (w.processedCnt / batchSz) - 1
  | .terminated => 12 * (w.processedCnt / batchSz) + 1

theorem time_step (h : w.Ok log hasInput hasOutput)
    (hs : w.step log hasInput hasOutput act = some w') : w.time < w'.time := by
  have hcount := h.count
  rw [step_eq_some] at hs
  cases act with
  | exit =>
    obtain ⟨⟨hpc, -⟩, rfl⟩ := hs
    simp [time, hpc]
  | front =>
    obtain ⟨⟨hpc, -⟩, rfl⟩ := hs
    simp [time, hpc]
  | process address =>
    obtain ⟨⟨hpc, -⟩, rfl⟩ := hs
    simp [time, hpc]
  | finish =>
    obtain ⟨⟨hpc, hi⟩, rfl⟩ := hs
    have hdiv : (w.processedCnt + batchSz) / batchSz = w.processedCnt / batchSz + 1 :=
      Nat.add_div_right _ (by decide)
    have hi' : w.i = 8 := hi
    cases hasOutput <;> simp only [time, hpc, hdiv, if_true, Bool.false_eq_true, if_false] <;> omega
  | push =>
    obtain ⟨hpc, rfl⟩ := hs
    simp only [CountOk, hpc] at hcount
    have hone : 1 ≤ w.processedCnt / batchSz := (Nat.one_le_div_iff (by decide)).mpr hcount.1
    cases hasInput <;> simp only [time, hpc, if_true, Bool.false_eq_true, if_false] <;> omega
  | pop =>
    obtain ⟨hpc, rfl⟩ := hs
    simp only [CountOk, hpc] at hcount
    have hone : 1 ≤ w.processedCnt / batchSz := (Nat.one_le_div_iff (by decide)).mpr hcount.1
    simp only [time, hpc]
    omega

theorem time_le (h : w.Ok log hasInput hasOutput) :
    w.time ≤ 12 * (terminationCount / batchSz) + 1 := by
  have hcount := h.count
  unfold time
  cases hpc : w.pc with
  | dispatch =>
    simp only [CountOk, hpc] at hcount
    have hi := (h.batch hpc).1
    simp only [terminationCount, batchSz] at hcount hi ⊢
    omega
  | _ =>
    simp only [CountOk, hpc, terminationCount, batchSz] at hcount ⊢
    omega

/-! ## Two neighbours -/

/-- What waits in the ring between `up` and `down` is what one has pushed and the other
has not popped; an item that is held is still there. -/
structure Link (up : Worker) (ring : Fifo Nat bufSz) (down : Worker) : Prop where
  sum : up.pushedCnt = down.poppedCnt + batchSz * ring.items.length
  held : down.Holds → ring.items ≠ []

section

variable {up down up' down' : Worker} {ring ring' : Fifo Nat bufSz}

/-- **Neighbours are never further apart than the ring is long.** -/
theorem Link.gap (h : up.Link ring down) :
    down.processedCnt ≤ up.processedCnt ∧
      up.processedCnt ≤ down.processedCnt + (bufSz + 1) * batchSz := by
  have hsum := h.sum
  have hlen := ring.bounded
  obtain ⟨hpush, hpush'⟩ := pushedCnt_near up
  obtain ⟨hpop, hpop'⟩ := poppedCnt_near down
  rw [Nat.add_mul, Nat.one_mul, Nat.mul_comm bufSz]
  have hring : batchSz * ring.items.length ≤ batchSz * bufSz := Nat.mul_le_mul_left _ hlen
  refine ⟨?_, by omega⟩
  by_cases hheld : down.Holds
  · -- the item held is in the ring
    have hone : 1 ≤ ring.items.length := List.length_pos_iff.mpr (h.held hheld)
    have hbatch := Nat.mul_le_mul_left batchSz hone
    omega
  · have heq := poppedCnt_of_not_holds hheld
    omega

theorem link_init : (init log).Link .empty (init log) where
  sum := rfl
  held := by
    rintro (h | h | h) <;> cases h

/-- What a step does to the ring in front of the stage. -/
def PushEffect (act : Act) (ring ring' : Fifo Nat bufSz) : Prop :=
  if act = .push then ring.push batchSz = some ring' else ring' = ring

/-- And to the ring behind it. -/
def PopEffect (act : Act) (ring ring' : Fifo Nat bufSz) : Prop :=
  if act = .pop then ring' = ring.pop else ring' = ring ∧ (act = .front → ring.items ≠ [])

theorem Link.up_step (h : up.Link ring down) (hup : up.Ok log hasInput true)
    (hs : up.step log hasInput true act = some up') (hring : PushEffect act ring ring') :
    up'.Link ring' down := by
  have hpushed := pushedCnt_step hup hs
  have hsum := h.sum
  unfold PushEffect at hring
  split at hring
  · rename_i hact
    have hitems := Fifo.push_items hring
    rw [if_pos hact] at hpushed
    constructor
    · rw [hpushed, hsum, hitems, List.length_append, List.length_singleton, Nat.mul_add,
        Nat.mul_one, Nat.add_assoc]
    · intro _
      rw [hitems]
      exact List.append_ne_nil_of_right_ne_nil _ (List.cons_ne_nil _ _)
  · rename_i hact
    rw [if_neg hact, Nat.add_zero] at hpushed
    exact ⟨by rw [hpushed, hsum, hring], by rw [hring]; exact h.held⟩

theorem Link.down_step (h : up.Link ring down) (hdown : down.Ok log true hasOutput)
    (hs : down.step log true hasOutput act = some down') (hring : PopEffect act ring ring') :
    up.Link ring' down' := by
  have hpopped := poppedCnt_step hdown hs
  have hsum := h.sum
  unfold PopEffect at hring
  split at hring
  · rename_i hact
    subst hact
    obtain ⟨hpc, rfl⟩ := step_eq_some.mp hs
    have hone : 1 ≤ ring.items.length := List.length_pos_iff.mpr (h.held (Or.inr (Or.inr hpc)))
    rw [if_pos rfl] at hpopped
    constructor
    · rw [hpopped, hring, Fifo.pop_items, List.length_tail, hsum, Nat.mul_sub, Nat.mul_one]
      have hbatch := Nat.mul_le_mul_left batchSz hone
      omega
    · simp [Holds]
  · rename_i hact
    obtain ⟨rfl, hfront⟩ := hring
    rw [if_neg hact, Nat.add_zero] at hpopped
    refine ⟨by rw [hpopped, hsum], fun hh => ?_⟩
    rcases holds_step hs hh with hact' | ⟨hheld, -⟩
    · exact hfront hact'
    · exact h.held hheld

end

end Worker

end Doradd.Profile
