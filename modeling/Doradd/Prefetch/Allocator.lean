import Mathlib.Algebra.Ring.Nat
import Mathlib.Data.List.Pairwise
import Mathlib.Data.List.Perm.Basic
import Mathlib.Logic.Function.Basic
import Doradd.Lib.Linked
import Doradd.Lib.Machine

/-!
# The allocator of the coroutine frames

Frames that are destroyed are kept in a list that is threaded through them; a new frame
takes the first one of the list if it is *no larger* than what is asked for.

* `Inv.step`: while no request is larger than the frame that it is given, the frames do
  not overlap, the list is intact whatever is written into the frames in use, and nothing
  is lost;
* `allocator_safe_iff`: every frame in use is large enough in every state of a run exactly
  if no request is larger than the frame that it is given;
* `one_size`: frames of one size are always reused, and there are as many as were ever in
  use at once.
-/

namespace Doradd.Prefetch

open Lib

/-! ## prefetch/coro_bin_search/coro_infra.h -/

/-- `tcalloc::header` -/
structure Header where
  next : Option Nat
  size : Nat

/-- `tcalloc`, and what lies at the start of the block at an address. -/
structure Tcalloc where
  root : Option Nat
  lastSizeAllocated : Nat
  total : Nat
  allocCount : Nat
  header : Nat → Header

namespace Tcalloc

/-- The tests of `alloc`: is there a first entry that is taken? -/
def reuses (a : Tcalloc) (sz : Nat) : Option Nat :=
  a.root.filter fun p => (a.header p).size ≤ sz

/-- `alloc(sz)`, where `mem` is what `malloc(sz)` would return. -/
def alloc (a : Tcalloc) (mem sz : Nat) : Nat × Tcalloc :=
  match a.reuses sz with
  | some p => (p, { a with root := (a.header p).next })
  | none =>
    (mem, { a with
      allocCount := a.allocCount + 1
      total := a.total + sz
      lastSizeAllocated := sz })

/-- `free(p, sz)` -/
def free (a : Tcalloc) (p sz : Nat) : Tcalloc :=
  { a with header := Function.update a.header p ⟨a.root, sz⟩, root := some p }

/-- `~tcalloc()`: what is given to `::free`, in order. -/
def destroy (a : Tcalloc) (fuel : Nat) : Except Fault (List Nat) :=
  walk (fun p => (a.header p).next) fuel a.root

end Tcalloc

/-! ## Programs -/

/-- Bytes from `p` on. -/
structure Block where
  p : Nat
  size : Nat
  deriving DecidableEq, Repr

def Block.Apart (a b : Block) : Prop := a.p + a.size ≤ b.p ∨ b.p + b.size ≤ a.p

instance (a b : Block) : Decidable (a.Apart b) := inferInstanceAs (Decidable (_ ∨ _))

def sizeofHeader : Nat := 16

/-- The allocator, the blocks that came from `malloc`, and those in use with the sizes that
were asked for. -/
structure Frames where
  allocator : Tcalloc
  blocks : List Block
  live : List Block

namespace Frames

inductive Label
  /-- `operator new`; `malloc` would return `mem` -/
  | new (sz mem : Nat)
  /-- `operator delete`, with the size that was asked for -/
  | delete (b : Block)
  /-- the block in use is written to; that may change what lies at the start of block `q` -/
  | write (b : Block) (q : Nat) (h : Header)

/-- `malloc` returns memory that is not in any block that it has returned.  A frame has room
for a header. -/
def step (s : Frames) : Label → Option Frames
  | .new sz mem =>
    if sizeofHeader ≤ sz ∧ ∀ b ∈ s.blocks, b.Apart ⟨mem, sz⟩ then
      let (p, allocator) := s.allocator.alloc mem sz
      some {
        allocator
        blocks := if (s.allocator.reuses sz).isSome then s.blocks else ⟨mem, sz⟩ :: s.blocks
        live := ⟨p, sz⟩ :: s.live }
    else none
  | .delete b =>
    if b ∈ s.live then
      some { s with allocator := s.allocator.free b.p b.size, live := s.live.erase b }
    else none
  | .write b q h =>
    if b ∈ s.live ∧ b.p < q + sizeofHeader ∧ q < b.p + b.size then
      some { s with
        allocator := { s.allocator with header := Function.update s.allocator.header q h } }
    else none

def machine : Machine Frames Label := ⟨⟨⟨none, 0, 0, 0, fun _ => ⟨none, 0⟩⟩, [], []⟩, step⟩

/-- Every frame in use lies in a block that is large enough. -/
def Fits (s : Frames) : Prop := ∀ b ∈ s.live, ∃ c ∈ s.blocks, c.p = b.p ∧ b.size ≤ c.size

/-- A request is not larger than the frame that it is given. -/
def LargeEnough (s : Frames) : Label → Prop
  | .new sz _ => ∀ p, s.allocator.reuses sz = some p → sz ≤ (s.allocator.header p).size
  | _ => True

/-- The blocks of the list, with the sizes that are noted in them. -/
def freeBlocks (s : Frames) (ps : List Nat) : List Block :=
  ps.map fun p => ⟨p, (s.allocator.header p).size⟩

/-- The list is intact, and every block is in it or in use, with the size that `malloc`
was asked for. -/
structure Inv (s : Frames) (ps : List Nat) : Prop where
  linked : Linked (fun p => (s.allocator.header p).next) s.allocator.root ps
  perm : (s.freeBlocks ps ++ s.live).Perm s.blocks
  apart : s.blocks.Pairwise Block.Apart
  large : ∀ b ∈ s.blocks, sizeofHeader ≤ b.size
  count : s.allocator.allocCount = s.blocks.length
  total : s.allocator.total = (s.blocks.map Block.size).sum

variable {s s' : Frames} {ps : List Nat}

theorem apart_symm {a b : Block} (h : a.Apart b) : b.Apart a := Or.symm h

instance : Std.Symm Block.Apart := ⟨fun _ _ => apart_symm⟩

/-! ## Frames do not overlap -/

theorem Inv.pairwise (h : s.Inv ps) : (s.freeBlocks ps ++ s.live).Pairwise Block.Apart :=
  (h.perm.pairwise_iff apart_symm).mpr h.apart

theorem Inv.large_mem (h : s.Inv ps) {b : Block} (hb : b ∈ s.freeBlocks ps ++ s.live) :
    sizeofHeader ≤ b.size := h.large b (h.perm.mem_iff.mp hb)

/-- A block of the list does not overlap one in use. -/
theorem Inv.free_apart (h : s.Inv ps) {p : Nat} (hp : p ∈ ps) {b : Block} (hb : b ∈ s.live) :
    Block.Apart ⟨p, (s.allocator.header p).size⟩ b ∧
      sizeofHeader ≤ (s.allocator.header p).size ∧ sizeofHeader ≤ b.size := by
  have hmem : (⟨p, (s.allocator.header p).size⟩ : Block) ∈ s.freeBlocks ps :=
    List.mem_map_of_mem hp
  exact ⟨(List.pairwise_append.mp h.pairwise).2.2 _ hmem b hb,
    h.large_mem (List.mem_append_left _ hmem), h.large_mem (List.mem_append_right _ hb)⟩

theorem Inv.eq_of_p (h : s.Inv ps) {a b : Block} (ha : a ∈ s.blocks) (hb : b ∈ s.blocks)
    (hp : a.p = b.p) : a = b := by
  by_contra hne
  have hlarge := h.large a ha
  have hlarge' := h.large b hb
  simp only [sizeofHeader] at hlarge hlarge'
  rcases h.apart.forall ha hb hne with hab | hba <;> omega

theorem Inv.fits (h : s.Inv ps) : s.Fits :=
  fun b hb => ⟨b, h.perm.mem_iff.mp (List.mem_append_right _ hb), rfl, Nat.le_refl _⟩

/-! ## Steps -/

/-- What is taken is the first entry of the list. -/
theorem Inv.reuses_eq (h : s.Inv ps) {sz p : Nat} (hp : s.allocator.reuses sz = some p) :
    ∃ rest, ps = p :: rest ∧ (s.allocator.header p).size ≤ sz := by
  obtain ⟨hroot, hle⟩ := Option.filter_eq_some_iff.mp hp
  have hlinked := h.linked
  cases ps with
  | nil => rw [show s.allocator.root = none from hlinked] at hroot; cases hroot
  | cons q rest =>
    rw [hlinked.1] at hroot
    obtain rfl := Option.some.inj hroot
    exact ⟨rest, rfl, of_decide_eq_true hle⟩

theorem freeBlocks_congr {header : Nat → Header} (hsame : ∀ p ∈ ps, header p = s.allocator.header p)
    (t : Frames) (ht : t.allocator.header = header) : t.freeBlocks ps = s.freeBlocks ps := by
  refine List.map_congr_left fun p hp => ?_
  rw [ht, hsame p hp]

/-- A frame from the list. -/
theorem Inv.reuse {sz p : Nat} {rest : List Nat} (h : s.Inv (p :: rest))
    (heq : (s.allocator.header p).size = sz) :
    Inv ⟨{ s.allocator with root := (s.allocator.header p).next }, s.blocks, ⟨p, sz⟩ :: s.live⟩
      rest where
  linked := h.linked.2
  perm := by
    have hperm := h.perm
    simp only [freeBlocks, List.map_cons, heq, List.cons_append] at hperm
    exact List.perm_middle.trans hperm
  apart := h.apart
  large := h.large
  count := h.count
  total := h.total

/-- A frame from `malloc`. -/
theorem Inv.malloc {sz mem : Nat} (h : s.Inv ps) (hsz : sizeofHeader ≤ sz)
    (hfresh : ∀ b ∈ s.blocks, b.Apart ⟨mem, sz⟩) :
    Inv ⟨{ s.allocator with
        allocCount := s.allocator.allocCount + 1
        total := s.allocator.total + sz
        lastSizeAllocated := sz }, ⟨mem, sz⟩ :: s.blocks, ⟨mem, sz⟩ :: s.live⟩ ps where
  linked := h.linked
  perm := List.perm_middle.trans (h.perm.cons _)
  apart := List.pairwise_cons.mpr ⟨fun b hb => apart_symm (hfresh b hb), h.apart⟩
  large := List.forall_mem_cons.mpr ⟨hsz, h.large⟩
  count := congrArg Nat.succ h.count
  total := by
    rw [List.map_cons, List.sum_cons, ← h.total]
    exact Nat.add_comm _ _

/-- A frame goes to the front of the list. -/
theorem Inv.delete {b : Block} (h : s.Inv ps) (hb : b ∈ s.live) :
    Inv { s with allocator := s.allocator.free b.p b.size, live := s.live.erase b }
      (b.p :: ps) := by
  have hne : ∀ p ∈ ps, p ≠ b.p := by
    rintro p hp rfl
    obtain ⟨hapart, hlarge, hlarge'⟩ := h.free_apart hp hb
    simp only [sizeofHeader] at hlarge hlarge'
    rcases hapart with hab | hba <;> simp only at * <;> omega
  have hsame : ∀ p ∈ ps, (s.allocator.free b.p b.size).header p = s.allocator.header p :=
    fun p hp => Function.update_of_ne (hne p hp) _ _
  have hself : (s.allocator.free b.p b.size).header b.p = ⟨s.allocator.root, b.size⟩ :=
    Function.update_self _ _ _
  refine ⟨⟨rfl, ?_⟩, ?_, h.apart, h.large, h.count, h.total⟩
  · simp only [hself]
    exact h.linked.congr fun p hp => congrArg Header.next (hsame p hp)
  · have hfree := freeBlocks_congr hsame
      { s with allocator := s.allocator.free b.p b.size, live := s.live.erase b } rfl
    have hcons : freeBlocks
        { s with allocator := s.allocator.free b.p b.size, live := s.live.erase b } (b.p :: ps) =
          b :: s.freeBlocks ps := by
      rw [freeBlocks, List.map_cons, hself]
      exact congrArg (b :: ·) hfree
    rw [hcons, List.cons_append]
    exact List.perm_middle.symm.trans
      (((List.perm_cons_erase hb).symm.append_left _).trans h.perm)

/-- What is written into a frame in use is in no entry of the list. -/
theorem Inv.write {b : Block} {q : Nat} (h : s.Inv ps) (hb : b ∈ s.live)
    (h₁ : b.p < q + sizeofHeader) (h₂ : q < b.p + b.size) (hd : Header) :
    Inv { s with
      allocator := { s.allocator with header := Function.update s.allocator.header q hd } } ps := by
  have hne : ∀ p ∈ ps, p ≠ q := by
    rintro p hp rfl
    obtain ⟨hapart, hlarge, -⟩ := h.free_apart hp hb
    rcases hapart with hab | hba <;> simp only at * <;> omega
  have hsame : ∀ p ∈ ps, Function.update s.allocator.header q hd p = s.allocator.header p :=
    fun p hp => Function.update_of_ne (hne p hp) _ _
  refine ⟨h.linked.congr fun p hp => congrArg Header.next (hsame p hp), ?_, h.apart, h.large,
    h.count, h.total⟩
  rw [freeBlocks_congr hsame _ rfl]
  exact h.perm

/-- **Step.** -/
theorem Inv.step {l : Label} (h : s.Inv ps) (hl : s.step l = some s') (hlarge : s.LargeEnough l) :
    ∃ ps', s'.Inv ps' := by
  cases l with
  | new sz mem =>
    simp only [Frames.step, Option.ite_none_right_eq_some, Option.some.injEq] at hl
    obtain ⟨⟨hsz, hfresh⟩, rfl⟩ := hl
    cases hr : s.allocator.reuses sz with
    | none =>
      simp only [Tcalloc.alloc, hr]
      exact ⟨ps, h.malloc hsz hfresh⟩
    | some p =>
      obtain ⟨rest, rfl, hle⟩ := h.reuses_eq hr
      simp only [Tcalloc.alloc, hr]
      exact ⟨rest, h.reuse (Nat.le_antisymm hle (hlarge p hr))⟩
  | delete b =>
    simp only [Frames.step, Option.ite_none_right_eq_some, Option.some.injEq] at hl
    obtain ⟨hb, rfl⟩ := hl
    exact ⟨_, h.delete hb⟩
  | write b q hd =>
    simp only [Frames.step, Option.ite_none_right_eq_some, Option.some.injEq] at hl
    obtain ⟨⟨hb, h₁, h₂⟩, rfl⟩ := hl
    exact ⟨ps, h.write hb h₁ h₂ hd⟩

/-- A frame that is too small is noticed at once. -/
theorem Inv.largeEnough {l : Label} (h : s.Inv ps) (hl : s.step l = some s') (hfits : s'.Fits) :
    s.LargeEnough l := by
  cases l with
  | new sz mem =>
    simp only [Frames.step, Option.ite_none_right_eq_some, Option.some.injEq] at hl
    obtain ⟨-, rfl⟩ := hl
    intro p hr
    obtain ⟨rest, rfl, -⟩ := h.reuses_eq hr
    simp only [Tcalloc.alloc, hr] at hfits
    obtain ⟨c, hc, hp, hle⟩ := hfits ⟨p, sz⟩ List.mem_cons_self
    have hfree : (⟨p, (s.allocator.header p).size⟩ : Block) ∈ s.blocks :=
      h.perm.mem_iff.mp (List.mem_append_left _ List.mem_cons_self)
    rw [h.eq_of_p hc hfree hp] at hle
    exact hle
  | delete b => trivial
  | write b q hd => trivial

/-! ## Runs -/

variable {tr : List Label}

theorem run_inv (h : machine.run tr = some s) (ha : machine.Along LargeEnough tr) :
    ∃ ps, s.Inv ps := by
  refine Machine.along_induction (P := fun _ s => ∃ ps, s.Inv ps) ?_ ?_ h ha
  · exact ⟨[], rfl, List.Perm.refl _, List.Pairwise.nil, fun b hb => absurd hb List.not_mem_nil,
      rfl, rfl⟩
  · rintro tr s l s' - - hc ⟨ps, hi⟩ hl
    exact hi.step hl hc

theorem along_of_fits (h : machine.run tr = some s)
    (hfits : ∀ pre post t, tr = pre ++ post → machine.run pre = some t → t.Fits) :
    machine.Along LargeEnough tr := by
  revert hfits
  refine Machine.run_induction (P := fun tr s =>
    (∀ pre post t, tr = pre ++ post → machine.run pre = some t → t.Fits) →
      machine.Along LargeEnough tr) (fun _ => Machine.along_nil) ?_ h
  intro tr s l s' hr ih hl hfits
  have ha := ih fun pre post t he => hfits pre (post ++ [l]) t (by rw [he, List.append_assoc])
  obtain ⟨ps, hi⟩ := run_inv hr ha
  have hlast := hfits (tr ++ [l]) [] s' (List.append_nil _).symm
    ((machine.run_snoc tr l s').mpr ⟨s, hr, hl⟩)
  exact (Machine.along_snoc hr).mpr ⟨ha, hi.largeEnough hl hlast⟩

/-- **Which runs are safe.**  Every frame in use is large enough at all times exactly if no
request is larger than the frame that it is given; then nothing is lost, and in the end all
that is not in use is given back once. -/
theorem allocator_safe_iff (tr : List Label) {s} (h : machine.run tr = some s) :
    ((∀ pre post t, tr = pre ++ post → machine.run pre = some t → t.Fits) ↔
      machine.Along LargeEnough tr) ∧
    (machine.Along LargeEnough tr → ∃ ps, s.Inv ps ∧
      ∀ fuel, ps.length ≤ fuel → s.allocator.destroy fuel = .ok ps) := by
  refine ⟨⟨along_of_fits h, ?_⟩, fun ha => ?_⟩
  · rintro ha pre post t rfl ht
    obtain ⟨ps, hi⟩ := run_inv ht (Machine.along_isPrefix ha)
    exact hi.fits
  · obtain ⟨ps, hi⟩ := run_inv h ha
    exact ⟨ps, hi, fun fuel hfuel => walk_eq hi.linked hfuel⟩

/-! ## Frames of one size -/

/-- All requests of a run are for `sz` bytes. -/
def OneSize (sz : Nat) (tr : List Label) : Prop := ∀ n mem, Label.new n mem ∈ tr → n = sz

/-- The blocks are of that size. -/
theorem blocks_step {sz : Nat} {l : Label} (hsize : ∀ b ∈ s.blocks, b.size = sz)
    (hone : ∀ n mem, l = .new n mem → n = sz) (hl : s.step l = some s') :
    ∀ b ∈ s'.blocks, b.size = sz := by
  cases l with
  | new n mem =>
    obtain rfl := hone n mem rfl
    simp only [Frames.step, Option.ite_none_right_eq_some, Option.some.injEq] at hl
    obtain ⟨-, rfl⟩ := hl
    simp only
    split
    · exact hsize
    · exact List.forall_mem_cons.mpr ⟨rfl, hsize⟩
  | delete b =>
    simp only [Frames.step, Option.ite_none_right_eq_some, Option.some.injEq] at hl
    obtain ⟨-, rfl⟩ := hl
    exact hsize
  | write b q hd =>
    simp only [Frames.step, Option.ite_none_right_eq_some, Option.some.injEq] at hl
    obtain ⟨-, rfl⟩ := hl
    exact hsize

/-- The first entry of the list is always taken. -/
theorem Inv.reuses_one {sz : Nat} (h : s.Inv ps) (hsize : ∀ b ∈ s.blocks, b.size = sz) :
    s.allocator.reuses sz = ps.head? ∧ ∀ p ∈ ps, (s.allocator.header p).size = sz := by
  have hall : ∀ p ∈ ps, (s.allocator.header p).size = sz := fun p hp =>
    hsize _ (h.perm.mem_iff.mp (List.mem_append_left _ (List.mem_map_of_mem hp)))
  have hlinked := h.linked
  refine ⟨?_, hall⟩
  cases ps with
  | nil =>
    rw [Tcalloc.reuses, show s.allocator.root = none from hlinked]
    rfl
  | cons p rest =>
    rw [Tcalloc.reuses, hlinked.1]
    exact if_pos (decide_eq_true (Nat.le_of_eq (hall p List.mem_cons_self)))

theorem Inv.length_live (h : s.Inv ps) :
    ps.length + s.live.length = s.allocator.allocCount := by
  rw [h.count, ← h.perm.length_eq, List.length_append, freeBlocks, List.length_map]

/-- Either no frame comes from `malloc`, or all frames are in use then. -/
theorem Inv.allocCount_step {sz : Nat} {l : Label} (h : s.Inv ps)
    (hsize : ∀ b ∈ s.blocks, b.size = sz) (hone : ∀ n mem, l = .new n mem → n = sz)
    (hl : s.step l = some s') : s'.allocator.allocCount = s.allocator.allocCount ∨
      s.allocator.allocCount ≤ s'.allocator.allocCount ∧
        s'.live.length = s'.allocator.allocCount := by
  cases l with
  | new n mem =>
    obtain rfl := hone n mem rfl
    simp only [Frames.step, Option.ite_none_right_eq_some, Option.some.injEq] at hl
    obtain ⟨-, rfl⟩ := hl
    have hlen := h.length_live
    obtain ⟨hr, -⟩ := h.reuses_one hsize
    cases ps with
    | nil =>
      refine Or.inr ?_
      simp only [Tcalloc.alloc, hr, List.head?_nil, List.length_cons, List.length_nil] at hlen ⊢
      omega
    | cons p rest =>
      refine Or.inl ?_
      simp only [Tcalloc.alloc, hr, List.head?_cons]
  | delete b =>
    simp only [Frames.step, Option.ite_none_right_eq_some, Option.some.injEq] at hl
    obtain ⟨-, rfl⟩ := hl
    exact Or.inl rfl
  | write b q hd =>
    simp only [Frames.step, Option.ite_none_right_eq_some, Option.some.injEq] at hl
    obtain ⟨-, rfl⟩ := hl
    exact Or.inl rfl

/-- As many frames as were ever in use at once. -/
structure Peak (tr : List Label) (n : Nat) : Prop where
  le : ∀ pre post t, tr = pre ++ post → machine.run pre = some t → t.live.length ≤ n
  eq : ∃ pre post t, tr = pre ++ post ∧ machine.run pre = some t ∧ t.live.length = n

theorem Peak.snoc {l : Label} {m n : Nat} (h : Peak tr m) (hmn : m ≤ n)
    (hrun : machine.run (tr ++ [l]) = some s') (hle : s'.live.length ≤ n)
    (heq : n = m ∨ s'.live.length = n) : Peak (tr ++ [l]) n := by
  constructor
  · intro pre post t he ht
    rcases List.eq_nil_or_concat post with rfl | ⟨post, k, rfl⟩
    · rw [List.append_nil] at he
      rw [← he, hrun, Option.some.injEq] at ht
      exact ht ▸ hle
    · rw [List.concat_eq_append, ← List.append_assoc] at he
      exact Nat.le_trans (h.le pre post t (List.append_inj' he rfl).1 ht) hmn
  · rcases heq with rfl | heq
    · obtain ⟨pre, post, t, he, ht, hlen⟩ := h.eq
      exact ⟨pre, post ++ [l], t, by rw [he, List.append_assoc], ht, hlen⟩
    · exact ⟨tr ++ [l], [], s', (List.append_nil _).symm, hrun, heq⟩

/-- **Frames of one size** are always large enough, and `malloc` is called as often as there
were ever frames in use at once. -/
theorem one_size (sz : Nat) (tr : List Label) {s} (h : machine.run tr = some s)
    (hone : OneSize sz tr) :
    machine.Along LargeEnough tr ∧ s.allocator.total = s.allocator.allocCount * sz ∧
      Peak tr s.allocator.allocCount := by
  have hall : machine.Along LargeEnough tr ∧ (∀ b ∈ s.blocks, b.size = sz) ∧
      Peak tr s.allocator.allocCount := by
    revert hone
    refine Machine.run_induction (P := fun tr s => OneSize sz tr →
      machine.Along LargeEnough tr ∧ (∀ b ∈ s.blocks, b.size = sz) ∧
        Peak tr s.allocator.allocCount) (fun _ => ?_) ?_ h
    · refine ⟨Machine.along_nil, fun b hb => absurd hb List.not_mem_nil, ⟨?_, [], [], _, rfl, rfl,
        rfl⟩⟩
      intro pre post t he ht
      obtain ⟨rfl, -⟩ := List.append_eq_nil_iff.mp he.symm
      obtain rfl := Option.some.inj ht
      exact Nat.le_refl 0
    · intro tr s l s' hr ih hl hone
      obtain ⟨ha, hsize, hpeak⟩ := ih fun n mem hmem => hone n mem (List.mem_append_left _ hmem)
      have hone' : ∀ n mem, l = .new n mem → n = sz := fun n mem he =>
        hone n mem (List.mem_append_right _ (he ▸ List.mem_singleton_self _))
      obtain ⟨ps, hi⟩ := run_inv hr ha
      have hlarge : s.LargeEnough l := by
        cases l with
        | new n mem =>
          intro p hp
          obtain ⟨rest, rfl, -⟩ := hi.reuses_eq hp
          have hp' := (hi.reuses_one hsize).2 p List.mem_cons_self
          exact Nat.le_of_eq ((hone' n mem rfl).trans hp'.symm)
        | delete b => trivial
        | write b q hd => trivial
      have hrun := (machine.run_snoc tr l s').mpr ⟨s, hr, hl⟩
      obtain ⟨ps', hi'⟩ := hi.step hl hlarge
      have hlen := hi'.length_live
      have hcount := hi.allocCount_step hsize hone' hl
      refine ⟨(Machine.along_snoc hr).mpr ⟨ha, hlarge⟩, blocks_step hsize hone' hl,
        hpeak.snoc (hcount.elim (fun he => Nat.le_of_eq he.symm) And.left) hrun (by omega)
          (hcount.imp_right And.right)⟩
  obtain ⟨ha, hsize, hpeak⟩ := hall
  obtain ⟨ps, hi⟩ := run_inv h ha
  refine ⟨ha, ?_, hpeak⟩
  rw [hi.total, hi.count, List.map_congr_left hsize, List.map_const', List.sum_replicate_nat]

end Frames

/-! ## Two frames -/

def exampleFrames : List Frames.Label :=
  [.new 32 1000, .new 32 2000, .delete ⟨1000, 32⟩, .write ⟨2000, 32⟩ 2008 ⟨some 7, 9⟩,
    .new 32 3000]

/-- The first frame is used again. -/
theorem one_size_two : ∃ s, Frames.machine.run exampleFrames = some s ∧
    s.allocator.total = 64 ∧ Frames.Peak exampleFrames 2 := by
  have hrun : ∃ s, Frames.machine.run exampleFrames = some s ∧ s.allocator.allocCount = 2 :=
    ⟨_, rfl, rfl⟩
  obtain ⟨s, hs, hcount⟩ := hrun
  have hone : Frames.OneSize 32 exampleFrames := by
    intro n mem hmem
    simp [exampleFrames] at hmem
    omega
  obtain ⟨-, htotal, hpeak⟩ := Frames.one_size 32 exampleFrames hs hone
  rw [hcount] at htotal hpeak
  exact ⟨s, hs, htotal, hpeak⟩

/-- A frame of 32 bytes is given to a request for 64. -/
def exampleOverflow : List Frames.Label := [.new 32 1000, .delete ⟨1000, 32⟩, .new 64 2000]

theorem allocator_safe_iff_overflow : ∃ s, Frames.machine.run exampleOverflow = some s ∧
    ¬ Frames.machine.Along Frames.LargeEnough exampleOverflow := by
  have hrun : ∃ s, Frames.machine.run exampleOverflow = some s ∧
      s.live = [⟨1000, 64⟩] ∧ s.blocks = [⟨1000, 32⟩] := ⟨_, rfl, rfl, rfl⟩
  obtain ⟨s, hs, hlive, hblocks⟩ := hrun
  refine ⟨s, hs, fun ha => ?_⟩
  have hfits := (Frames.allocator_safe_iff exampleOverflow hs).1.mpr ha exampleOverflow [] s
    (List.append_nil _).symm hs
  obtain ⟨c, hc, -, hle⟩ := hfits ⟨1000, 64⟩ (by rw [hlive]; exact List.mem_singleton_self _)
  rw [hblocks] at hc
  rw [List.mem_singleton.mp hc] at hle
  exact absurd hle (by decide)

end Doradd.Prefetch
