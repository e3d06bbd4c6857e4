import Mathlib.Data.Set.Disjoint
import Doradd.Lib.Bytes
import Doradd.Lib.Layout
import Doradd.Lib.Schedule

/-!
# Assignments to memory

An assignment writes a number into the bytes of its window; the number may be computed
from the memory that it finds.

* `SameOn`: two memories agree on some of their bytes;
* `sameOn_exec`: assignments change no byte outside of their windows;
* `exec_resolved`: if no window touches another, nor what the numbers are computed from,
  every number is found where it was written.
-/

namespace Lib

/-! ## Agreement -/

/-- Memories of one size that agree on the bytes of `S`. -/
structure SameOn (S : Set Nat) (mem mem' : List UInt8) : Prop where
  length : mem'.length = mem.length
  bytes : ∀ i ∈ S, mem'[i]? = mem[i]?

section

variable {S T : Set Nat} {mem mem' mem'' : List UInt8}

theorem SameOn.refl (S : Set Nat) (mem : List UInt8) : SameOn S mem mem := ⟨rfl, fun _ _ => rfl⟩

theorem SameOn.trans (h : SameOn S mem mem') (h' : SameOn S mem' mem'') : SameOn S mem mem'' :=
  ⟨h'.length.trans h.length, fun i hi => (h'.bytes i hi).trans (h.bytes i hi)⟩

theorem SameOn.mono (h : SameOn T mem mem') (hST : S ⊆ T) : SameOn S mem mem' :=
  ⟨h.length, fun i hi => h.bytes i (hST hi)⟩

/-- A field is read from its own bytes. -/
theorem SameOn.field {o n : Nat} (h : SameOn (Set.Ico o (o + n)) mem mem') :
    field mem' o n = field mem o n := by
  have hbytes : (mem'.drop o).take n = (mem.drop o).take n := by
    apply List.ext_getElem?
    intro i
    rcases Nat.lt_or_ge i n with hi | hi
    · rw [List.getElem?_take_of_lt hi, List.getElem?_take_of_lt hi, List.getElem?_drop,
        List.getElem?_drop]
      exact h.bytes (o + i) ⟨by omega, by omega⟩
    · rw [List.getElem?_take_eq_none hi, List.getElem?_take_eq_none hi]
  rw [Lib.field, Lib.field, hbytes]

end

/-! ## Stores -/

/-- Bytes written over those from offset `o` on. -/
def store (mem : List UInt8) (o : Nat) (bytes : List UInt8) : List UInt8 :=
  mem.mapIdx fun i b => if o ≤ i then bytes.getD (i - o) b else b

section

variable (mem : List UInt8) (o : Nat) (bytes : List UInt8)

@[simp] theorem length_store : (store mem o bytes).length = mem.length := List.length_mapIdx

theorem getElem?_store (i : Nat) :
    (store mem o bytes)[i]? = mem[i]?.map fun b => if o ≤ i then bytes.getD (i - o) b else b := by
  rw [store, List.getElem?_mapIdx]

/-- Bytes outside of the window stay. -/
theorem sameOn_store {S : Set Nat} (h : Disjoint S (Set.Ico o (o + bytes.length))) :
    SameOn S mem (store mem o bytes) := by
  refine ⟨length_store mem o bytes, fun i hi => ?_⟩
  have hout : ¬ (o ≤ i ∧ i < o + bytes.length) := Set.disjoint_left.mp h hi
  rw [getElem?_store]
  cases mem[i]? with
  | none => rfl
  | some b =>
    rw [Option.map_some]
    split
    · rw [List.getD_eq_default _ _ (by omega)]
    · rfl

/-- The bytes are found in the window. -/
theorem field_store {n : Nat} (hn : bytes.length = n) (h : o + n ≤ mem.length) :
    field (store mem o bytes) o n = leValue bytes := by
  have hbytes : ((store mem o bytes).drop o).take n = bytes := by
    apply List.ext_getElem?
    intro i
    rcases Nat.lt_or_ge i n with hi | hi
    · have hget : mem[o + i]? = some mem[o + i] := List.getElem?_eq_getElem (by omega)
      rw [List.getElem?_take_of_lt hi, List.getElem?_drop, getElem?_store, hget, Option.map_some,
        if_pos (Nat.le_add_right o i), Nat.add_sub_cancel_left,
        List.getD_eq_getElem _ _ (by omega), List.getElem?_eq_getElem (by omega)]
    · rw [List.getElem?_take_eq_none hi, List.getElem?_eq_none (by omega)]
  rw [field, hbytes]

end

/-! ## Assignments -/

/-- `value` of the memory is written to the `width` bytes at `offset`. -/
structure Assignment where
  offset : Nat
  width : Nat
  value : List UInt8 → Nat

namespace Assignment

variable (a : Assignment)

def window : Set Nat := Set.Ico a.offset (a.offset + a.width)

def run (mem : List UInt8) : List UInt8 := store mem a.offset (leBytes a.width (a.value mem))

/-- The value is computed from the bytes of `S`. -/
def Reads (S : Set Nat) : Prop := ∀ mem mem', SameOn S mem mem' → a.value mem' = a.value mem

@[simp] theorem length_run (mem : List UInt8) : (a.run mem).length = mem.length :=
  length_store mem _ _

theorem sameOn_run {S : Set Nat} (h : Disjoint S a.window) (mem : List UInt8) :
    SameOn S mem (a.run mem) := by
  apply sameOn_store
  rw [length_leBytes]
  exact h

theorem field_run {mem : List UInt8} (h : a.offset + a.width ≤ mem.length) :
    field (a.run mem) a.offset a.width = a.value mem % 256 ^ a.width := by
  rw [run, field_store _ _ _ (length_leBytes _ _) h, leValue_leBytes]

end Assignment

section

variable {as : List Assignment} {S : Set Nat}

/-- **Frame.**  What no window touches stays. -/
theorem sameOn_exec (h : ∀ a ∈ as, Disjoint S a.window) (mem : List UInt8) :
    SameOn S mem (exec Assignment.run as mem) := by
  induction as generalizing mem with
  | nil => exact .refl S mem
  | cons a as ih =>
    have hstep := a.sameOn_run (h a List.mem_cons_self) mem
    exact hstep.trans (ih (fun b hb => h b (List.mem_cons_of_mem a hb)) (a.run mem))

/-- **Values.**  Every number is found where it was written. -/
theorem exec_resolved (hapart : as.Pairwise fun a b => Disjoint a.window b.window)
    (hreads : ∀ a ∈ as, a.Reads S) (hout : ∀ a ∈ as, Disjoint S a.window) {mem : List UInt8}
    (hin : ∀ a ∈ as, a.offset + a.width ≤ mem.length) :
    ∀ a ∈ as, field (exec Assignment.run as mem) a.offset a.width =
      a.value mem % 256 ^ a.width := by
  induction as generalizing mem with
  | nil =>
    intro a ha
    cases ha
  | cons b as ih =>
    obtain ⟨hb, hrest⟩ := List.pairwise_cons.mp hapart
    have hsame : SameOn S mem (b.run mem) := b.sameOn_run (hout b List.mem_cons_self) mem
    intro a ha
    rw [exec_cons]
    rcases List.mem_cons.mp ha with rfl | ha
    · -- later windows leave this one alone
      rw [(sameOn_exec hb (a.run mem)).field]
      exact a.field_run (hin a List.mem_cons_self)
    · rw [ih hrest (fun c hc => hreads c (List.mem_cons_of_mem b hc))
        (fun c hc => hout c (List.mem_cons_of_mem b hc))
        (fun c hc => (hin c (List.mem_cons_of_mem b hc)).trans_eq (b.length_run mem).symm) a ha,
        hreads a (List.mem_cons_of_mem b ha) mem (b.run mem) hsame]

end

end Lib
