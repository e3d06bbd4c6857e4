import Mathlib.Data.List.Induction
import Doradd.Dispatcher.Log
import Doradd.Lib.Memory

/-!
# Preparing records where they lie

Preparing a record stores pointers behind the keys that they are looked up by, in the
record itself.  A replay calls it on the records of a log in some order, and on some of
them many times.

* `pointTo_lookupAddr`: addresses of rows lead back to the rows;
* `prepared`: whatever the calls, the pointers of every record that was prepared are
  those of its keys, and no other byte has changed;
* `contained_iff`: a call stays within the pointers of its record if the indices do.
-/

namespace Doradd

open Lib

/-- What the runtime gives out for a cown, and the cown that it gives back for that. -/
structure CownAddrs (κ : Type) where
  getBaseAddr : κ → UInt64
  getCownPtrFromAddr : UInt64 → κ
  from_base : ∀ c, getCownPtrFromAddr (getBaseAddr c) = c

section

variable {κ key : Type} (rt : CownAddrs κ) (getRow : key → Option κ) (stray : key → UInt64)

/-- The address of the row of a key; past the end of the table something strays in. -/
def lookupAddr (k : key) : UInt64 :=
  match getRow k with
  | some c => rt.getBaseAddr c
  | none => stray k

theorem lookupAddr_of_isSome {k : key} (h : (getRow k).isSome) :
    some (lookupAddr rt getRow stray k) = (getRow k).map rt.getBaseAddr ∧
      some (rt.getCownPtrFromAddr (lookupAddr rt getRow stray k)) = getRow k := by
  obtain ⟨c, hc⟩ := Option.isSome_iff_exists.mp h
  simp only [lookupAddr, hc, Option.map_some, rt.from_base, and_self]

/-- Pointers are the base addresses of the rows that lookups of the keys give; turned back
they are these rows. -/
structure PointTo (ptrs : List UInt64) (ks : List key) : Prop where
  addrs : ptrs.map some = ks.map fun k => (getRow k).map rt.getBaseAddr
  rows : ptrs.map (fun a => some (rt.getCownPtrFromAddr a)) = ks.map getRow

theorem pointTo_lookupAddr {ks : List key} (h : ∀ k ∈ ks, (getRow k).isSome) :
    PointTo rt getRow (ks.map (lookupAddr rt getRow stray)) ks := by
  constructor
  · rw [List.map_map]
    exact List.map_congr_left fun k hk => (lookupAddr_of_isSome rt getRow stray (h k hk)).1
  · rw [List.map_map]
    exact List.map_congr_left fun k hk => (lookupAddr_of_isSome rt getRow stray (h k hk)).2

end

/-- `cown_ptrs[elem] = ..`, with an address that is looked up by keys in the memory. -/
structure PtrStore where
  elem : Nat
  addr : List UInt8 → UInt64

/-- `prepare_cowns` of a marshalled struct: the keys come first, the array of pointers
behind them.  Which stores are made depends on the keys alone. -/
structure Preparer where
  recordSize : Nat
  ptrs : Nat
  len : Nat
  ptrs_fit : ptrs + 8 * len ≤ recordSize
  stores : List UInt8 → Nat → List PtrStore
  stores_congr : ∀ {mem mem' p}, SameOn (Set.Ico p (p + ptrs)) mem mem' →
    stores mem' p = stores mem p

namespace Preparer

variable (P : Preparer)

/-- Where element `j` of the array is. -/
def elemAt (p j : Nat) : Nat := p + (P.ptrs + 8 * j)

def cownPtr (mem : List UInt8) (p j : Nat) : UInt64 := UInt64.ofNat (field mem (P.elemAt p j) 8)

def assignment (p : Nat) (s : PtrStore) : Assignment :=
  ⟨P.elemAt p s.elem, 8, fun mem => (s.addr mem).toNat⟩

/-- `prepare_cowns` on the record at `p`. -/
def prepare (mem : List UInt8) (p : Nat) : List UInt8 :=
  exec Assignment.run ((P.stores mem p).map (P.assignment p)) mem

/-- Calls on the records `ks` of a log. -/
def prepareAll (log : Log) (ks : List Nat) (mem : List UInt8) : List UInt8 :=
  exec (fun k mem => P.prepare mem (log.record k)) ks mem

/-! ## Places -/

def keyBytes (p : Nat) : Set Nat := Set.Ico p (p + P.ptrs)

def ptrBytes (p : Nat) : Set Nat := Set.Ico (p + P.ptrs) (p + (P.ptrs + 8 * P.len))

def recordBytes (p : Nat) : Set Nat := Set.Ico p (p + P.recordSize)

theorem keyBytes_subset (p : Nat) : P.keyBytes p ⊆ P.recordBytes p := by
  have h := P.ptrs_fit
  exact Set.Ico_subset_Ico (Nat.le_refl p) (by omega)

theorem ptrBytes_subset (p : Nat) : P.ptrBytes p ⊆ P.recordBytes p := by
  have h := P.ptrs_fit
  exact Set.Ico_subset_Ico (by omega) (by omega)

theorem disjoint_keyBytes (p : Nat) : Disjoint (P.keyBytes p) (P.ptrBytes p) :=
  Set.Ico_disjoint_Ico.mpr (by omega)

/-- Records of a log do not overlap. -/
theorem disjoint_record {log : Log} (hsize : log.recordSize = P.recordSize) {k l : Nat}
    (h : k ≠ l) : Disjoint (P.recordBytes (log.record k)) (P.recordBytes (log.record l)) := by
  have hslot : ∀ j, slot log.readTop P.recordSize j = P.recordBytes (log.record j) := by
    intro j
    rw [slot, recordBytes, Log.record, hsize, Nat.mul_comm]
  rw [← hslot, ← hslot]
  exact disjoint_slot log.readTop P.recordSize h

theorem window_assignment (p : Nat) (s : PtrStore) :
    (P.assignment p s).window = slot (p + P.ptrs) 8 s.elem := by
  rw [Assignment.window, slot, assignment, elemAt, ← Nat.add_assoc]

theorem window_subset (p : Nat) {s : PtrStore} (h : s.elem < P.len) :
    (P.assignment p s).window ⊆ P.ptrBytes p := by
  rw [window_assignment, ptrBytes, ← Nat.add_assoc]
  exact slot_subset (p + P.ptrs) 8 h

/-! ## One call -/

/-- A record that is prepared from its keys, into different elements of its array. -/
structure Fit (mem : List UInt8) (p : Nat) : Prop where
  fits : p + P.recordSize ≤ mem.length
  reads : ∀ s ∈ P.stores mem p, ∀ mem₁ mem₂, SameOn (P.keyBytes p) mem₁ mem₂ →
    s.addr mem₂ = s.addr mem₁
  elems : ∀ s ∈ P.stores mem p, s.elem < P.len
  distinct : ((P.stores mem p).map PtrStore.elem).Nodup

section

variable {P} {log : Log} {ks : List Nat} {mem mem' : List UInt8} {p : Nat}

/-- The keys of a fit record are still there if its bytes outside of the pointers are. -/
theorem Fit.congr (h : P.Fit mem p) (hs : SameOn (P.keyBytes p) mem mem') : P.Fit mem' p := by
  obtain ⟨hfits, hreads, helems, hdistinct⟩ := h
  rw [← P.stores_congr hs] at hreads helems hdistinct
  exact ⟨hfits.trans_eq hs.length.symm, hreads, helems, hdistinct⟩

/-- A call within the array changes nothing else. -/
theorem prepare_sameOn (helems : ∀ s ∈ P.stores mem p, s.elem < P.len) {S : Set Nat}
    (hS : Disjoint S (P.ptrBytes p)) : SameOn S mem (P.prepare mem p) := by
  apply sameOn_exec
  intro a ha
  obtain ⟨s, hs, rfl⟩ := List.mem_map.mp ha
  exact hS.mono_right (P.window_subset p (helems s hs))

/-- It leaves the pointers of a record that lies elsewhere. -/
theorem prepare_cownPtr_of_disjoint (helems : ∀ s ∈ P.stores mem p, s.elem < P.len) {q : Nat}
    (hq : Disjoint (P.recordBytes q) (P.recordBytes p)) {s : PtrStore} (hs : s.elem < P.len) :
    P.cownPtr (P.prepare mem p) q s.elem = P.cownPtr mem q s.elem := by
  have hwindow : Disjoint (P.assignment q s).window (P.ptrBytes p) :=
    hq.mono ((P.window_subset q hs).trans (P.ptrBytes_subset q)) (P.ptrBytes_subset p)
  have hfield := (prepare_sameOn helems hwindow).field
  exact congrArg UInt64.ofNat hfield

/-- One call resolves the pointers. -/
theorem Fit.prepare_resolved (h : P.Fit mem p) {s : PtrStore} (hs : s ∈ P.stores mem p) :
    P.cownPtr (P.prepare mem p) p s.elem = s.addr mem := by
  have hreads : ∀ a ∈ (P.stores mem p).map (P.assignment p), a.Reads (P.keyBytes p) := by
    intro a ha
    obtain ⟨s, hs, rfl⟩ := List.mem_map.mp ha
    intro mem₁ mem₂ hsame
    exact congrArg UInt64.toNat (h.reads s hs mem₁ mem₂ hsame)
  have hout : ∀ a ∈ (P.stores mem p).map (P.assignment p), Disjoint (P.keyBytes p) a.window := by
    intro a ha
    obtain ⟨s, hs, rfl⟩ := List.mem_map.mp ha
    exact (P.disjoint_keyBytes p).mono_right (P.window_subset p (h.elems s hs))
  have hin : ∀ a ∈ (P.stores mem p).map (P.assignment p), a.offset + a.width ≤ mem.length := by
    intro a ha
    obtain ⟨s, hs, rfl⟩ := List.mem_map.mp ha
    have hfits := h.fits
    have hptrs := P.ptrs_fit
    have helem := h.elems s hs
    simp only [assignment, elemAt]
    omega
  have hapart : ((P.stores mem p).map (P.assignment p)).Pairwise
      fun a b => Disjoint a.window b.window := by
    rw [List.pairwise_map]
    refine (List.pairwise_map.mp h.distinct).imp fun hne => ?_
    rw [window_assignment, window_assignment]
    exact disjoint_slot _ _ hne
  have hval := exec_resolved hapart hreads hout hin _ (List.mem_map_of_mem hs)
  have hlt : (s.addr mem).toNat < 256 ^ 8 := (s.addr mem).toNat_lt
  rw [cownPtr, prepare]
  exact (congrArg UInt64.ofNat (hval.trans (Nat.mod_eq_of_lt hlt))).trans (UInt64.ofNat_toNat)

/-! ## Calls on the records of a log -/

/-- The state after calls on the records `ks`. -/
structure Prepared (P : Preparer) (log : Log) (ks : List Nat) (mem mem' : List UInt8) :
    Prop where
  rest : SameOn { i | ∀ k ∈ ks, i ∉ P.ptrBytes (log.record k) } mem mem'
  resolved : ∀ k ∈ ks, ∀ s ∈ P.stores mem (log.record k),
    P.cownPtr mem' (log.record k) s.elem = s.addr mem

/-- No call reaches the keys of a record. -/
theorem keyBytes_rest (hsize : log.recordSize = P.recordSize) (ks : List Nat) (k : Nat) :
    P.keyBytes (log.record k) ⊆ { i | ∀ l ∈ ks, i ∉ P.ptrBytes (log.record l) } := by
  intro i hi l hl hout
  by_cases hkl : k = l
  · subst hkl
    exact Set.disjoint_left.mp (P.disjoint_keyBytes _) hi hout
  · exact Set.disjoint_left.mp (P.disjoint_record hsize hkl) (P.keyBytes_subset _ hi)
      (P.ptrBytes_subset _ hout)

/-- The keys of all records are as they were. -/
theorem Prepared.keys (h : P.Prepared log ks mem mem') (hsize : log.recordSize = P.recordSize)
    (k : Nat) : SameOn (P.keyBytes (log.record k)) mem mem' :=
  h.rest.mono (keyBytes_rest hsize ks k)

/-- Records that were not prepared are as they were. -/
theorem Prepared.others (h : P.Prepared log ks mem mem') (hsize : log.recordSize = P.recordSize)
    {k : Nat} (hk : k ∉ ks) : SameOn (P.recordBytes (log.record k)) mem mem' := by
  refine h.rest.mono fun i hi l hl hout => ?_
  have hne : k ≠ l := by
    rintro rfl
    exact hk hl
  exact Set.disjoint_left.mp (P.disjoint_record hsize hne) hi (P.ptrBytes_subset _ hout)

/-- The pointers of a prepared record, in the order in which they were stored. -/
theorem Prepared.map_cownPtr (h : P.Prepared log ks mem mem') {k : Nat} (hk : k ∈ ks) :
    (P.stores mem (log.record k)).map (fun s => P.cownPtr mem' (log.record k) s.elem) =
      (P.stores mem (log.record k)).map fun s => s.addr mem :=
  List.map_congr_left fun s hs => h.resolved k hk s hs

/-- One more call. -/
theorem Prepared.snoc (hsize : log.recordSize = P.recordSize) {k : Nat}
    (hfit : ∀ l ∈ ks ++ [k], P.Fit mem (log.record l)) (h : P.Prepared log ks mem mem') :
    P.Prepared log (ks ++ [k]) mem (P.prepare mem' (log.record k)) := by
  have hkeys := h.keys hsize k
  have hk : P.Fit mem (log.record k) := hfit k (List.mem_append_right _ (List.mem_singleton_self k))
  have hk' : P.Fit mem' (log.record k) := hk.congr hkeys
  constructor
  · have hmono : { i | ∀ l ∈ ks ++ [k], i ∉ P.ptrBytes (log.record l) } ⊆
        { i | ∀ l ∈ ks, i ∉ P.ptrBytes (log.record l) } :=
      fun i hi l hl => hi l (List.mem_append_left _ hl)
    refine (h.rest.mono hmono).trans (prepare_sameOn hk'.elems ?_)
    rw [Set.disjoint_left]
    intro i hi
    exact hi k (List.mem_append_right _ (List.mem_singleton_self k))
  · intro l hl s hs
    by_cases hlk : l = k
    · subst hlk
      rw [hk'.prepare_resolved (by rwa [P.stores_congr hkeys]), hk.reads s hs mem mem' hkeys]
    · have hold : l ∈ ks := by
        rcases List.mem_append.mp hl with hl | hl
        · exact hl
        · exact absurd (List.mem_singleton.mp hl) hlk
      rw [prepare_cownPtr_of_disjoint hk'.elems (P.disjoint_record hsize hlk)
        ((hfit l hl).elems s hs)]
      exact h.resolved l hold s hs

/-- **Calls in any order, and any number of them.** -/
theorem prepared (hsize : log.recordSize = P.recordSize) (ks : List Nat)
    (hfit : ∀ k ∈ ks, P.Fit mem (log.record k)) :
    P.Prepared log ks mem (P.prepareAll log ks mem) := by
  induction ks using List.reverseRecOn with
  | nil => exact ⟨.refl _ mem, fun k hk => absurd hk List.not_mem_nil⟩
  | append_singleton ks k ih =>
    rw [prepareAll, exec_snoc]
    exact (ih fun l hl => hfit l (List.mem_append_left _ hl)).snoc hsize hfit

/-! ## Calls on malformed records -/

/-- A call stores into elements of the array of its record, and changes no other byte. -/
structure Contained (P : Preparer) (mem : List UInt8) (p : Nat) : Prop where
  elems : ∀ s ∈ P.stores mem p, s.elem < P.len
  rest : SameOn { i | i ∉ P.ptrBytes p } mem (P.prepare mem p)

theorem contained_iff : P.Contained mem p ↔ ∀ s ∈ P.stores mem p, s.elem < P.len := by
  constructor
  · intro h
    exact h.elems
  · intro h
    refine ⟨h, prepare_sameOn h ?_⟩
    rw [Set.disjoint_left]
    intro i hi
    exact hi

end

end Preparer

end Doradd
