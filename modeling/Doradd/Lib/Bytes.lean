import Mathlib.Algebra.Ring.Nat
import Mathlib.Data.List.GetD

/-!
# Numbers in bytes

Numbers are written as bytes, least significant first, and read back at an offset.

* `leValue_leBytes`: reading back what was written;
* `field_append_left`, `field_append_right`: a field of the first or of the second of
  two pieces;
* `field_flatMap`: a field of one of several pieces of the same length;
* `packAll_eq_some`: values that do not fit their widths are not written at all.
-/

namespace Lib

/-- The `n` low bytes of a number. -/
def leBytes : Nat → Nat → List UInt8
  | 0, _ => []
  | n + 1, v => UInt8.ofNat v :: leBytes n (v / 256)

/-- The number that bytes stand for. -/
def leValue : List UInt8 → Nat
  | [] => 0
  | b :: bs => b.toNat + leValue bs * 256

/-- The number in the `n` bytes at offset `o`. -/
def field (mem : List UInt8) (o n : Nat) : Nat := leValue ((mem.drop o).take n)

@[simp] theorem length_leBytes (n v : Nat) : (leBytes n v).length = n := by
  induction n generalizing v with
  | zero => rfl
  | succ n ih => rw [leBytes, List.length_cons, ih]

theorem leValue_leBytes (n v : Nat) : leValue (leBytes n v) = v % 256 ^ n := by
  induction n generalizing v with
  | zero => rw [leBytes, leValue, Nat.pow_zero, Nat.mod_one]
  | succ n ih =>
    have hmod : v % 256 ^ (n + 1) = v % 256 + 256 * (v / 256 % 256 ^ n) := by
      rw [Nat.pow_succ', Nat.mod_mul]
    rw [leBytes, leValue, ih, UInt8.toNat_ofNat', hmod, Nat.mul_comm 256]

theorem leValue_lt (bs : List UInt8) : leValue bs < 256 ^ bs.length := by
  induction bs with
  | nil => exact Nat.one_pos
  | cons b bs ih =>
    have hb := b.toNat_lt
    rw [leValue, List.length_cons, Nat.pow_succ]
    omega

/-- The bytes of a wide number are those of its low part and of its high part. -/
theorem leBytes_add (m n v : Nat) :
    leBytes (m + n) v = leBytes m v ++ leBytes n (v / 256 ^ m) := by
  induction m generalizing v with
  | zero => simp [leBytes]
  | succ m ih =>
    rw [Nat.succ_add, leBytes, leBytes, ih, Nat.div_div_eq_div_mul, Nat.pow_succ',
      List.cons_append]

theorem leBytes_mod (n v : Nat) : leBytes n (v % 256 ^ n) = leBytes n v := by
  induction n generalizing v with
  | zero => rfl
  | succ n ih =>
    have hlow : UInt8.ofNat (v % 256 ^ (n + 1)) = UInt8.ofNat v := by
      apply UInt8.toNat_inj.mp
      rw [UInt8.toNat_ofNat', UInt8.toNat_ofNat', Nat.pow_succ']
      exact Nat.mod_mul_right_mod v 256 (256 ^ n)
    have hhigh : v % 256 ^ (n + 1) / 256 = v / 256 % 256 ^ n := by
      rw [Nat.pow_succ', Nat.mod_mul_right_div_self]
    rw [leBytes, leBytes, hlow, hhigh, ih]

theorem leBytes_zero (n : Nat) : leBytes n 0 = List.replicate n 0 := by
  induction n with
  | zero => rfl
  | succ n ih => rw [leBytes, Nat.zero_div, ih, List.replicate_succ]; rfl

theorem leValue_replicate_zero (n : Nat) : leValue (List.replicate n 0) = 0 := by
  rw [← leBytes_zero, leValue_leBytes, Nat.zero_mod]

/-! ## Fields -/

theorem field_lt (mem : List UInt8) (o n : Nat) : field mem o n < 256 ^ n := by
  refine Nat.lt_of_lt_of_le (leValue_lt _) (Nat.pow_le_pow_right (by decide) ?_)
  rw [List.length_take]
  exact Nat.min_le_left _ _

theorem field_leBytes (n v : Nat) : field (leBytes n v) 0 n = v % 256 ^ n := by
  unfold field
  rw [List.drop_zero, List.take_of_length_le (Nat.le_of_eq (length_leBytes n v)), leValue_leBytes]

theorem field_append_left (a b : List UInt8) {o n : Nat} (h : o + n ≤ a.length) :
    field (a ++ b) o n = field a o n := by
  unfold field
  rw [List.drop_append_of_le_length (by omega), List.take_append_of_le_length]
  rw [List.length_drop]
  omega

theorem field_append_right (a b : List UInt8) (o n : Nat) :
    field (a ++ b) (a.length + o) n = field b o n := by
  unfold field
  rw [List.drop_append, List.drop_of_length_le (Nat.le_add_right _ _), Nat.add_sub_cancel_left,
    List.nil_append]

theorem field_replicate_zero (m o n : Nat) : field (List.replicate m 0) o n = 0 := by
  unfold field
  rw [List.drop_replicate, List.take_replicate, leValue_replicate_zero]

/-- Past the first of two pieces there are only zeros. -/
theorem field_zeros (a : List UInt8) (m : Nat) {o : Nat} (h : a.length ≤ o) (n : Nat) :
    field (a ++ List.replicate m 0) o n = 0 := by
  obtain ⟨d, rfl⟩ := Nat.exists_eq_add_of_le h
  rw [field_append_right, field_replicate_zero]

theorem length_flatMap_const {α : Type} {f : α → List UInt8} {n : Nat} {l : List α}
    (h : ∀ a ∈ l, (f a).length = n) : (l.flatMap f).length = n * l.length := by
  induction l with
  | nil => rfl
  | cons a l ih =>
    rw [List.flatMap_cons, List.length_append, h a List.mem_cons_self,
      ih fun b hb => h b (List.mem_cons_of_mem a hb), List.length_cons, Nat.mul_succ, Nat.add_comm]

/-- **Pieces of the same length.**  A field of piece `k`. -/
theorem field_flatMap {α : Type} {f : α → List UInt8} {n : Nat} {l : List α}
    (h : ∀ a ∈ l, (f a).length = n) {k : Nat} (hk : k < l.length) {o m : Nat} (ho : o + m ≤ n) :
    field (l.flatMap f) (n * k + o) m = field (f l[k]) o m := by
  induction l generalizing k with
  | nil => exact absurd hk (Nat.not_lt_zero k)
  | cons a l ih =>
    have ha := h a List.mem_cons_self
    rw [List.flatMap_cons]
    cases k with
    | zero =>
      rw [Nat.mul_zero, Nat.zero_add]
      exact field_append_left _ _ (by omega)
    | succ k =>
      have hoff : n * (k + 1) + o = (f a).length + (n * k + o) := by
        rw [ha, Nat.mul_succ]
        omega
      rw [hoff, field_append_right]
      exact ih (fun b hb => h b (List.mem_cons_of_mem a hb)) (Nat.lt_of_succ_lt_succ hk)

/-! ## Packing -/

/-- A value in as many bytes as its format has, if it fits. -/
def pack (width v : Nat) : Option (List UInt8) :=
  if v < 256 ^ width then some (leBytes width v) else none

/-- Values packed one after the other, each under its width. -/
def packAll : List (Nat × Nat) → Option (List UInt8)
  | [] => some []
  | (width, v) :: fields => do
    let bytes ← pack width v
    let rest ← packAll fields
    return bytes ++ rest

theorem pack_eq_some {width v : Nat} {bytes : List UInt8} :
    pack width v = some bytes ↔ v < 256 ^ width ∧ bytes = leBytes width v := by
  unfold pack
  split
  · rename_i h
    simp [h, eq_comm]
  · rename_i h
    simp [h]

theorem packAll_eq_some {fields : List (Nat × Nat)} {bytes : List UInt8} :
    packAll fields = some bytes ↔
      (∀ f ∈ fields, f.2 < 256 ^ f.1) ∧ bytes = fields.flatMap fun f => leBytes f.1 f.2 := by
  induction fields generalizing bytes with
  | nil => simp [packAll, eq_comm]
  | cons f fields ih =>
    obtain ⟨width, v⟩ := f
    simp only [packAll, Option.bind_eq_bind, Option.bind_eq_some_iff, pack_eq_some, ih,
      Option.pure_def, Option.some.injEq, List.forall_mem_cons, List.flatMap_cons]
    constructor
    · rintro ⟨_, ⟨hv, rfl⟩, _, ⟨hall, rfl⟩, rfl⟩
      exact ⟨⟨hv, hall⟩, rfl⟩
    · rintro ⟨⟨hv, hall⟩, rfl⟩
      exact ⟨_, ⟨hv, rfl⟩, _, ⟨hall, rfl⟩, rfl⟩

/-! ## Words -/

/-- **Words followed by zeros.**  Past the words, the fields of four bytes are zero. -/
theorem field_words (ws : List Nat) (m i : Nat) :
    field (ws.flatMap (leBytes 4) ++ List.replicate m 0) (4 * i) 4 =
      ws.getD i 0 % 256 ^ 4 := by
  have hlen : (ws.flatMap (leBytes 4)).length = 4 * ws.length :=
    length_flatMap_const fun w _ => length_leBytes 4 w
  rcases Nat.lt_or_ge i ws.length with hi | hi
  · have hfield := field_flatMap (f := leBytes 4) (n := 4) (l := ws) (o := 0) (m := 4)
      (fun w _ => length_leBytes 4 w) hi (Nat.le_refl 4)
    rw [Nat.add_zero] at hfield
    rw [field_append_left _ _ (by omega), hfield, field_leBytes, List.getD_eq_getElem ws 0 hi]
  · rw [field_zeros _ _ (by omega), List.getD_eq_default ws 0 hi, Nat.zero_mod]

end Lib
