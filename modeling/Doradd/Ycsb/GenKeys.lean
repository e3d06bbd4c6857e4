import Mathlib.Data.List.Induction
import Mathlib.Data.Nat.BitIndices
import Doradd.Lib.Draws
import Doradd.Ycsb.Transaction

/-!
# What the YCSB generator draws

The generator draws ten keys, each one again until it is new; under contention the first
seven are masked into a small set, and the others are drawn again until they are outside
of it.  The write set is a shuffle of ten bits.

* `ensures_genKeys`: the keys, for every outcome of the draws;
* `bitIndices_genWriteSet`: the bits, for every shuffle;
* `generated_workload`: what a transaction of the log is made of.
-/

namespace Doradd.Ycsb

open Lib

/-! ## ycsb/gen-log/generate_ycsb_zipf.cc -/

def rowCount : UInt64 := 10000000
def rowPerTx : Nat := 10
def nrMSBContentionKey : Int := 6

/-- `__builtin_clzll` -/
def clzll (x : UInt64) : Nat := x.toBitVec.clz.toNat

def nrLsb : Int := 63 - clzll rowCount - nrMSBContentionKey

def mask : UInt64 := if 0 < nrLsb then (1 <<< UInt64.ofNat nrLsb.toNat) - 1 else 0

def nrContKey (contention : Bool) : Nat := if contention then 7 else 0

/-- `r->next()` -/
def next : Draw UInt64 := do
  let v ← randint 0 (2 ^ 64 - 1)
  pure (UInt64.ofNat v)

/-- `keys[i]`, as it stands before the tests. -/
def drawKey (contention : Bool) (i : Nat) : Draw UInt32 := do
  let v ← next
  let key := (v % rowCount).toUInt32
  pure (if i < nrContKey contention then (key.toUInt64 &&& ~~~mask).toUInt32 else key)

/-- No test sends the loop back to `again`. -/
def accepted (contention : Bool) (keys : List UInt32) (key : UInt32) : Bool :=
  (decide (keys.length < nrContKey contention) || key.toUInt64 &&& mask != 0) &&
    !keys.contains key

/-- One round of the loop, after the keys drawn so far. -/
def genKey (contention : Bool) (keys : List UInt32) : Draw (List UInt32) := do
  let key ← retry (drawKey contention keys.length) (accepted contention keys)
  pure (keys ++ [key])

def genKeys (contention : Bool) : Draw (List UInt32) := repeatM rowPerTx (genKey contention) []

def binDigits : List UInt8 := [0, 0, 0, 0, 0, 0, 0, 0, 1, 1]

/-- `shuffled` is what `std::shuffle` leaves in `binDigits`. -/
def genWriteSet (contention : Bool) (shuffled : List UInt8) : UInt16 :=
  if contention then ((1 : UInt16) <<< 10) - 1
  else shuffled.foldl (fun result digit => (result <<< 1) ||| digit.toUInt16) 0

/-! ## Keys -/

/-- Ten keys, or the first `k` of them: the hot ones come first and are multiples of
`2 ^ 17`, which no other key is. -/
structure WellFormedKeys (contention : Bool) (k : Nat) (keys : List UInt32) : Prop where
  length : keys.length = k
  distinct : keys.Nodup
  below : ∀ key ∈ keys, key.toNat < rowCount.toNat
  hot : ∀ i key, keys[i]? = some key → (2 ^ 17 ∣ key.toNat ↔ i < nrContKey contention)

/-- The mask keeps the low 17 bits. -/
theorem and_mask (x : UInt64) : (x &&& mask).toNat = x.toNat % 2 ^ 17 := by
  have hmask : mask.toNat = 2 ^ 17 - 1 := by decide
  rw [UInt64.toNat_and, hmask, Nat.and_two_pow_sub_one_eq_mod]

theorem and_mask_eq_zero (x : UInt64) : x &&& mask = 0 ↔ 2 ^ 17 ∣ x.toNat := by
  rw [← UInt64.toNat_inj, and_mask, UInt64.toNat_zero, Nat.dvd_iff_mod_eq_zero]

/-- The masked key is a multiple, and no greater than the key. -/
theorem masked (key : UInt32) :
    2 ^ 17 ∣ (key.toUInt64 &&& ~~~mask).toUInt32.toNat ∧
      (key.toUInt64 &&& ~~~mask).toUInt32.toNat ≤ key.toNat := by
  have hle : (key.toUInt64 &&& ~~~mask).toNat ≤ key.toNat := by
    rw [UInt64.toNat_and, UInt32.toNat_toUInt64]
    exact Nat.and_le_left
  have hsame : (key.toUInt64 &&& ~~~mask).toUInt32.toNat = (key.toUInt64 &&& ~~~mask).toNat := by
    rw [UInt64.toNat_toUInt32]
    exact Nat.mod_eq_of_lt (hle.trans_lt key.toNat_lt)
  rw [hsame, ← and_mask_eq_zero, UInt64.and_assoc, UInt64.not_and_self, UInt64.and_zero]
  exact ⟨rfl, hle⟩

theorem ensures_drawKey (contention : Bool) (i : Nat) : Ensures (drawKey contention i) fun key =>
    key.toNat < rowCount.toNat ∧ (i < nrContKey contention → 2 ^ 17 ∣ key.toNat) := by
  apply Ensures.then
  intro v
  apply Ensures.pure
  have hv : (v % rowCount).toUInt32.toNat < rowCount.toNat := by
    have hrow : rowCount.toNat = 10000000 := rfl
    rw [UInt64.toNat_toUInt32, UInt64.toNat_mod, hrow]
    omega
  split
  · obtain ⟨hdvd, hle⟩ := masked (v % rowCount).toUInt32
    exact ⟨hle.trans_lt hv, fun _ => hdvd⟩
  · rename_i hi
    exact ⟨hv, fun h => absurd h hi⟩

theorem accepted_iff {contention : Bool} {keys : List UInt32} {key : UInt32} :
    accepted contention keys key = true ↔
      (keys.length < nrContKey contention ∨ ¬ 2 ^ 17 ∣ key.toNat) ∧ key ∉ keys := by
  rw [accepted, Bool.and_eq_true, Bool.or_eq_true, decide_eq_true_eq, bne_iff_ne, ne_eq,
    and_mask_eq_zero, UInt32.toNat_toUInt64, Bool.not_eq_true', ← Bool.not_eq_true,
    List.contains_iff_mem]

/-- A key that passes the tests goes after the ones that have. -/
theorem WellFormedKeys.snoc {contention : Bool} {k : Nat} {keys : List UInt32} {key : UInt32}
    (h : WellFormedKeys contention k keys) (hrow : key.toNat < rowCount.toNat)
    (hmasked : keys.length < nrContKey contention → 2 ^ 17 ∣ key.toNat)
    (hok : accepted contention keys key = true) :
    WellFormedKeys contention (k + 1) (keys ++ [key]) := by
  obtain ⟨hmask, hnew⟩ := accepted_iff.mp hok
  constructor
  · rw [List.length_append, h.length, List.length_singleton]
  · rw [← List.concat_eq_append]
    exact h.distinct.concat hnew
  · intro a ha
    rcases List.mem_append.mp ha with hold | hkey
    · exact h.below a hold
    · cases List.mem_singleton.mp hkey
      exact hrow
  · intro i a ha
    rcases Nat.lt_trichotomy i keys.length with hlt | rfl | hgt
    · rw [List.getElem?_append_left hlt] at ha
      exact h.hot i a ha
    · rw [List.getElem?_concat_length] at ha
      cases ha
      constructor
      · intro hdvd
        exact hmask.resolve_right fun hn => hn hdvd
      · exact hmasked
    · rw [List.getElem?_eq_none (by rw [List.length_append, List.length_singleton]; omega)] at ha
      cases ha

/-- **Whatever is drawn, the keys that are returned are distinct, in range, and hot
where they should be.** -/
theorem ensures_genKeys (contention : Bool) :
    Ensures (genKeys contention) (WellFormedKeys contention rowPerTx) := by
  have hnil : WellFormedKeys contention 0 [] :=
    ⟨rfl, List.nodup_nil, fun key hkey => absurd hkey List.not_mem_nil,
      fun i key hkey => by simp at hkey⟩
  refine Ensures.repeatM hnil ?_ rowPerTx
  intro k keys hkeys
  refine ((ensures_drawKey contention keys.length).retry _).bind ?_
  intro key hkey
  exact .pure (hkeys.snoc hkey.1.1 hkey.1.2 hkey.2)

/-! ## Write sets -/

/-- A bit more on the right. -/
theorem bitIndices_length_snoc (n : Nat) {d : Nat} (hd : d ≤ 1) :
    (2 * n + d).bitIndices.length = n.bitIndices.length + d := by
  rcases Nat.le_one_iff_eq_zero_or_eq_one.mp hd with rfl | rfl
  · simp
  · simp

/-- One round of the loop over the digits. -/
theorem toNat_shift_or {result : UInt16} {digit : UInt8} (hresult : result.toNat < 2 ^ 15)
    (hdigit : digit.toNat ≤ 1) :
    ((result <<< 1) ||| digit.toUInt16).toNat = 2 * result.toNat + digit.toNat := by
  have hshift : (result <<< 1).toNat = 2 ^ 1 * result.toNat := by
    rw [UInt16.toNat_shiftLeft, show (1 : UInt16).toNat % 16 = 1 from rfl, Nat.shiftLeft_eq]
    omega
  rw [UInt16.toNat_or, UInt8.toNat_toUInt16, hshift,
    ← Nat.two_pow_add_eq_or_of_lt (by omega), Nat.pow_one]

/-- As many bits are set as the digits say, and they fit as long as the digits do. -/
theorem foldl_digits (digits : List UInt8) (hd : ∀ d ∈ digits, d.toNat ≤ 1)
    (hlen : digits.length ≤ 16) :
    let ws := digits.foldl (fun (result : UInt16) digit => (result <<< 1) ||| digit.toUInt16) 0
    ws.toNat < 2 ^ digits.length ∧
      ws.toNat.bitIndices.length = (digits.map UInt8.toNat).sum := by
  induction digits using List.reverseRecOn with
  | nil => simp
  | append_singleton digits d ih =>
    rw [List.length_append, List.length_singleton] at hlen ⊢
    obtain ⟨hlt, hbits⟩ := ih (fun e he => hd e (List.mem_append_left _ he)) (by omega)
    have hone : d.toNat ≤ 1 := hd d (List.mem_append_right _ (List.mem_singleton_self d))
    have hpow : 2 ^ digits.length ≤ 2 ^ 15 := Nat.pow_le_pow_right (by decide) (by omega)
    rw [List.foldl_append, List.foldl_cons, List.foldl_nil]
    intro ws
    have hws : ws.toNat = _ := toNat_shift_or (hlt.trans_le hpow) hone
    rw [hws]
    constructor
    · rw [Nat.pow_succ]
      omega
    · rw [bitIndices_length_snoc _ hone, hbits, List.map_append, List.sum_append]
      rfl

/-- The bits of a write set. -/
structure WellFormedWriteSet (contention : Bool) (ws : UInt16) : Prop where
  below : ws.toNat < 2 ^ 10
  bits : ws.toNat.bitIndices.length = if contention then 10 else 2

/-- **However the digits are shuffled, two bits of the write set are set; under contention
all ten are.** -/
theorem bitIndices_genWriteSet (contention : Bool) {shuffled : List UInt8}
    (h : shuffled.Perm binDigits) :
    WellFormedWriteSet contention (genWriteSet contention shuffled) := by
  cases contention with
  | true =>
    have hall : genWriteSet true shuffled = 1023 := rfl
    have hd : ∀ d ∈ List.replicate 10 (1 : UInt8), d.toNat ≤ 1 := by
      intro d hmem
      rw [List.eq_of_mem_replicate hmem]
      exact Nat.le_refl 1
    obtain ⟨hlt, hbits⟩ := foldl_digits (List.replicate 10 1) hd (by simp)
    rw [hall]
    exact ⟨hlt, hbits⟩
  | false =>
    have hd : ∀ d ∈ shuffled, d.toNat ≤ 1 := by
      intro d hmem
      have hall : ∀ d ∈ binDigits, d.toNat ≤ 1 := by simp [binDigits]
      exact hall d (h.mem_iff.mp hmem)
    have hlen : shuffled.length = 10 := h.length_eq
    obtain ⟨hlt, hbits⟩ := foldl_digits shuffled hd (by omega)
    rw [hlen] at hlt
    rw [(h.map UInt8.toNat).sum_nat] at hbits
    exact ⟨hlt, hbits⟩

/-! ## Transactions -/

/-- **The keys and the write set of a transaction, for every outcome of the draws and of
the shuffle.** -/
theorem generated_workload (contention : Bool) :
    Ensures (genKeys contention) (WellFormedKeys contention rowPerTx) ∧
      ∀ shuffled : List UInt8, shuffled.Perm binDigits →
        WellFormedWriteSet contention (genWriteSet contention shuffled) :=
  ⟨ensures_genKeys contention, fun _ h => bitIndices_genWriteSet contention h⟩

/-- Seven draws that the mask tells apart, and three that it does not touch. -/
def exampleDraws : List Nat :=
  (List.range 7).map (fun i => 131072 * (i + 1) + 5) ++ [1, 2, 3]

/-- A transaction under contention. -/
theorem generated_workload_contended :
    WellFormedKeys true rowPerTx
        [131072, 262144, 393216, 524288, 655360, 786432, 917504, 1, 2, 3] ∧
      WellFormedWriteSet true (genWriteSet true binDigits) :=
  ⟨(generated_workload true).1 exampleDraws _ [] (by decide),
    (generated_workload true).2 binDigits (List.Perm.refl _)⟩

end Doradd.Ycsb
