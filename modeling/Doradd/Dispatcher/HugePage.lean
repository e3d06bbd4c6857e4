import Doradd.Lib.Checked
import Doradd.Lib.Memory

/-!
# Logs in huge pages

A log is mapped and copied into memory of its own, huge page by huge page.  What is left
of it is copied as a string.

* `copyPages_copied`: the whole pages;
* `loads_iff`: which files are copied to their end.
-/

namespace Doradd.HugePage

open Lib

/-! ## string.h and sys/mman.h -/

/-- `memcpy` into `dst` at `d`, from `src` at `s`. -/
def memcpy (dst : List UInt8) (d : Nat) (src : List UInt8) (s n : Nat) :
    Except Fault (List UInt8) :=
  if s + n ≤ src.length ∧ d + n ≤ dst.length then .ok (store dst d ((src.drop s).take n))
  else .error .outOfBounds

/-- `strlen`, which reads up to the first zero. -/
def strlen (mem : List UInt8) (s : Nat) : Except Fault Nat :=
  match (mem.drop s).findIdx? (· == 0) with
  | some n => .ok n
  | none => .error .outOfBounds

/-- `PAGE_SIZE` -/
def pageSize : Nat := 2 ^ 12

/-- `HPAGE_SIZE` -/
def hpageSize : Nat := 2 ^ 21

/-- `mmap` maps whole pages; what the file does not fill of the last one is zero.  No file
is mapped that is empty. -/
def mmap (file : List UInt8) : List UInt8 :=
  file ++ List.replicate ((pageSize - file.length % pageSize) % pageSize) 0

/-! ## hugepage.hpp -/

/-- One round of the loop, with `buf` and `src` at the page. -/
def copyPage (src buf : List UInt8) (i : Nat) : Except Fault (List UInt8) :=
  memcpy buf (i * hpageSize) src (i * hpageSize) hpageSize

/-- `aligned_alloc_hpage_fd`; memory that is allocated holds what is in `fill`. -/
def alignedAllocHpageFd (file : List UInt8) (fill : Nat → UInt8) : Except Fault (List UInt8) := do
  let srcSz := file.length
  let hpageNr := srcSz / hpageSize + 1
  let allocSz := hpageNr * hpageSize
  let buf := (List.range allocSz).map fill
  let src := mmap file
  let buf ← (upTo 0 (hpageNr - 1) 1).foldlM (copyPage src) buf
  let n ← strlen src ((hpageNr - 1) * hpageSize)
  memcpy buf ((hpageNr - 1) * hpageSize) src ((hpageNr - 1) * hpageSize) n

/-- Whatever is in the memory that is allocated, the file is copied into it. -/
def Loads (file : List UInt8) : Prop :=
  ∀ fill, ∃ buf, alignedAllocHpageFd file fill = .ok buf ∧ buf.take file.length = file

/-! ## Copies -/

/-- The first `k` bytes are copied, the others are as they were allocated. -/
structure Copied (src init : List UInt8) (k : Nat) (buf : List UInt8) : Prop where
  length : buf.length = init.length
  copied : ∀ i < k, buf[i]? = src[i]?
  others : ∀ i, k ≤ i → buf[i]? = init[i]?

variable {src init buf buf' : List UInt8} {k n : Nat}

theorem Copied.memcpy (h : Copied src init k buf) (hcopy : memcpy buf k src k n = .ok buf') :
    Copied src init (k + n) buf' := by
  unfold HugePage.memcpy at hcopy
  split at hcopy
  · rename_i hfits
    cases hcopy
    have hlen : ((src.drop k).take n).length = n := by
      rw [List.length_take, List.length_drop]
      omega
    have hbuf := h.length
    constructor
    · rw [length_store, hbuf]
    · intro i hi
      rw [getElem?_store]
      rcases Nat.lt_or_ge i k with hik | hik
      · rw [h.copied i hik]
        simp only [Nat.not_le.mpr hik, if_false, Option.map_id']
      · have hbi : buf[i]? = some (buf.get ⟨i, by omega⟩) := List.getElem?_eq_getElem (by omega)
        have hsi : src[i]? = some (src.get ⟨i, by omega⟩) := List.getElem?_eq_getElem (by omega)
        have hbyte : ((src.drop k).take n)[i - k]? = src[i]? := by
          rw [List.getElem?_take_of_lt (by omega), List.getElem?_drop, Nat.add_sub_cancel' hik]
        rw [hbi, Option.map_some, if_pos hik, List.getD_eq_getElem?_getD, hbyte, hsi,
          Option.getD_some]
    · intro i hi
      have hout := (sameOn_store buf k ((src.drop k).take n) (S := {i}) (by
        rw [Set.disjoint_singleton_left, hlen]
        rintro ⟨-, hlt⟩
        omega)).bytes i rfl
      rw [hout, h.others i (by omega)]
  · cases hcopy

theorem memcpy_of_fits (hsrc : k + n ≤ src.length) (hbuf : k + n ≤ buf.length) :
    ∃ buf', memcpy buf k src k n = .ok buf' := ⟨_, if_pos ⟨hsrc, hbuf⟩⟩

/-- The loop copies the whole pages. -/
theorem copyPages_copied {pages : Nat} (hsrc : pages * hpageSize ≤ src.length)
    (hinit : pages * hpageSize ≤ init.length) :
    ∃ buf, (upTo 0 pages 1).foldlM (copyPage src) init = .ok buf ∧
      Copied src init (pages * hpageSize) buf := by
  have hstep : ∀ i < pages, ∀ buf, Copied src init (i * hpageSize) buf →
      ∃ buf', copyPage src buf i = .ok buf' ∧ Copied src init ((i + 1) * hpageSize) buf' := by
    intro i hi buf h
    have hpage : (i + 1) * hpageSize ≤ pages * hpageSize := Nat.mul_le_mul_right _ (by omega)
    have hbuf := h.length
    rw [Nat.succ_mul] at hpage ⊢
    have hfits : i * hpageSize + hpageSize ≤ buf.length := by omega
    obtain ⟨buf', hcopy⟩ := memcpy_of_fits (hpage.trans hsrc) hfits
    exact ⟨buf', hcopy, h.memcpy hcopy⟩
  exact foldlM_upTo_inv (fun i buf => Copied src init (i * hpageSize) buf) pages hstep
    ⟨rfl, fun i hi => absurd hi (by omega), fun i _ => rfl⟩

/-! ## The rest of the file -/

variable {file : List UInt8}

/-- Where the rest begins that is no whole page. -/
def fullSize (file : List UInt8) : Nat := file.length / hpageSize * hpageSize

def rest (file : List UInt8) : List UInt8 := file.drop (fullSize file)

theorem fullSize_le (file : List UInt8) : fullSize file ≤ file.length := Nat.div_mul_le_self _ _

theorem length_rest (file : List UInt8) : fullSize file + (rest file).length = file.length := by
  rw [rest, List.length_drop]
  exact Nat.add_sub_cancel' (fullSize_le file)

theorem mmap_drop (file : List UInt8) : (mmap file).drop (fullSize file) =
    rest file ++ List.replicate ((pageSize - file.length % pageSize) % pageSize) 0 :=
  List.drop_append_of_le_length (fullSize_le file)

/-- A zero in the rest ends the string. -/
theorem strlen_of_mem (h : 0 ∈ rest file) :
    ∃ n < (rest file).length, strlen (mmap file) (fullSize file) = .ok n := by
  obtain ⟨n, hn⟩ : ∃ n, (rest file).findIdx? (· == 0) = some n := by
    rw [← Option.isSome_iff_exists, List.findIdx?_isSome, List.any_eq_true]
    exact ⟨0, h, rfl⟩
  refine ⟨n, (List.findIdx?_eq_some_iff_getElem.mp hn).1, ?_⟩
  rw [strlen, mmap_drop, List.findIdx?_append, hn]
  rfl

theorem findIdx?_rest (h : 0 ∉ rest file) : (rest file).findIdx? (· == 0) = none := by
  rw [List.findIdx?_eq_none_iff]
  intro b hb
  rw [beq_eq_false_iff_ne]
  rintro rfl
  exact h hb

/-- Without one, the zeros of the last page do. -/
theorem strlen_of_notMem (h : 0 ∉ rest file) (hpage : file.length % pageSize ≠ 0) :
    strlen (mmap file) (fullSize file) = .ok (rest file).length := by
  have hpad : 0 < (pageSize - file.length % pageSize) % pageSize := by
    have hlt : file.length % pageSize < pageSize := Nat.mod_lt _ (Nat.two_pow_pos 12)
    rw [Nat.mod_eq_of_lt (by omega)]
    omega
  rw [strlen, mmap_drop, List.findIdx?_append, findIdx?_rest h, List.findIdx?_replicate,
    if_pos ⟨hpad, rfl⟩, Option.map_some, Nat.zero_add, Option.none_or]

/-- A file of whole pages has none behind it. -/
theorem strlen_past_end (h : 0 ∉ rest file) (hpage : file.length % pageSize = 0) :
    strlen (mmap file) (fullSize file) = .error .outOfBounds := by
  rw [strlen, mmap_drop, List.findIdx?_append, findIdx?_rest h, hpage]
  rfl

/-- The memory that is allocated. -/
def allocated (file : List UInt8) (fill : Nat → UInt8) : List UInt8 :=
  (List.range ((file.length / hpageSize + 1) * hpageSize)).map fill

/-- All there is to a call: the whole pages, and what the string comes to. -/
theorem alignedAllocHpageFd_eq (file : List UInt8) (fill : Nat → UInt8) :
    ∃ buf, Copied (mmap file) (allocated file fill) (fullSize file) buf ∧
      alignedAllocHpageFd file fill = strlen (mmap file) (fullSize file) >>= fun n =>
        memcpy buf (fullSize file) (mmap file) (fullSize file) n := by
  have hsrc : file.length / hpageSize * hpageSize ≤ (mmap file).length := by
    rw [mmap, List.length_append]
    exact Nat.le_add_right_of_le (fullSize_le file)
  have hinit : file.length / hpageSize * hpageSize ≤ (allocated file fill).length := by
    rw [allocated, List.length_map, List.length_range]
    exact Nat.mul_le_mul_right _ (Nat.le_succ _)
  obtain ⟨buf, hrun, h⟩ := copyPages_copied hsrc hinit
  refine ⟨buf, h, ?_⟩
  rw [alignedAllocHpageFd]
  simp only [Nat.add_sub_cancel]
  exact bind_of_ok hrun _

/-- The bytes of the file that have been copied. -/
theorem Copied.take (h : Copied (mmap file) init file.length buf) :
    buf.take file.length = file := by
  apply List.ext_getElem?
  intro i
  rcases Nat.lt_or_ge i file.length with hi | hi
  · rw [List.getElem?_take_of_lt hi, h.copied i hi, mmap, List.getElem?_append_left hi]
  · rw [List.getElem?_take_eq_none hi, List.getElem?_eq_none hi]

theorem loads_of (hzero : 0 ∉ rest file) (hpage : file.length % pageSize ≠ 0) : Loads file := by
  intro fill
  obtain ⟨buf, h, hrun⟩ := alignedAllocHpageFd_eq file fill
  have hlen := length_rest file
  have hbuf := h.length
  have hsrc : fullSize file + (rest file).length ≤ (mmap file).length := by
    rw [hlen, mmap, List.length_append]
    exact Nat.le_add_right _ _
  have hfits : fullSize file + (rest file).length ≤ buf.length := by
    rw [hlen, hbuf, allocated, List.length_map, List.length_range, Nat.succ_mul]
    exact (Nat.lt_div_mul_add (by decide)).le
  obtain ⟨buf', hcopy⟩ := memcpy_of_fits hsrc hfits
  have h' := h.memcpy hcopy
  rw [hlen] at h'
  refine ⟨buf', ?_, h'.take⟩
  rw [hrun, bind_of_ok (strlen_of_notMem hzero hpage), hcopy]

/-- The bytes behind a zero stay as they were allocated. -/
theorem not_loads_of_mem (h : 0 ∈ rest file) : ¬ Loads file := by
  intro hloads
  obtain ⟨out, hout, htake⟩ := hloads fun i => file.getD i 0 + 1
  obtain ⟨buf, hcopied, hrun⟩ := alignedAllocHpageFd_eq file fun i => file.getD i 0 + 1
  obtain ⟨n, hn, hstrlen⟩ := strlen_of_mem h
  rw [hrun, bind_of_ok hstrlen] at hout
  have hlen := length_rest file
  have hi : fullSize file + n < file.length := by omega
  have hbyte := (hcopied.memcpy hout).others (fullSize file + n) (Nat.le_refl _)
  have hin : fullSize file + n < (file.length / hpageSize + 1) * hpageSize := by
    rw [Nat.succ_mul]
    exact hi.trans (Nat.lt_div_mul_add (by decide))
  rw [allocated, List.getElem?_map, List.getElem?_range hin, Option.map_some] at hbyte
  have hfile : (out.take file.length)[fullSize file + n]? = file[fullSize file + n]? := by
    rw [htake]
  rw [List.getElem?_take_of_lt hi, hbyte, List.getD_eq_getElem _ _ hi, List.getElem?_eq_getElem hi,
    Option.some.injEq] at hfile
  exact absurd (UInt8.add_eq_left.mp hfile) (by decide)

theorem not_loads_of_pages (hzero : 0 ∉ rest file) (hpage : file.length % pageSize = 0) :
    ¬ Loads file := by
  intro hloads
  obtain ⟨out, hout, -⟩ := hloads fun _ => 0
  obtain ⟨buf, -, hrun⟩ := alignedAllocHpageFd_eq file fun _ => 0
  rw [hrun, strlen_past_end hzero hpage] at hout
  cases hout

/-- **A file is loaded if nothing after its last whole huge page is zero, and it does not
end where a page does.** -/
theorem loads_iff (file : List UInt8) : Loads file ↔
    0 ∉ file.drop (file.length / hpageSize * hpageSize) ∧ file.length % pageSize ≠ 0 := by
  constructor
  · intro h
    have hzero : 0 ∉ rest file := fun hmem => not_loads_of_mem hmem h
    exact ⟨hzero, fun hpage => not_loads_of_pages hzero hpage h⟩
  · rintro ⟨hzero, hpage⟩
    exact loads_of hzero hpage

/-- A log with one record of three bytes, the second of which is zero. -/
theorem zero_not_loaded : ¬ Loads [1, 0, 0, 0, 7, 0, 9] :=
  not_loads_of_mem (by decide)

end Doradd.HugePage
