import Doradd.Lib.Fallible
import Doradd.Dispatcher.LogFile
import Doradd.Tpcc.GenParams
import Doradd.Tpcc.Transaction

/-!
# The TPC-C log

The generator packs the parameters of a transaction, of four bytes each but for one,
and fills the record with zeros; the dispatcher reads 65 words of four bytes.

* `generateStruct_eq_some`: a record is its type, its words and zeros;
* `read_params`: the dispatcher reads these words;
* `records_round_trip`: what it consumes of a log is what was written;
* `payment_fields_lost`: the fields behind the amount of a Payment are not where it
  looks for them.
-/

namespace Doradd.Tpcc

open Lib

/-! ## tpcc.cc -/

namespace TPCCTransactionMarshalled

/-- `sizeof(TPCCTransactionMarshalled)` -/
def size : Nat := 576

/-- `reinterpret_cast<TPCCTransactionMarshalled*>` of the packed struct: the type is
its first byte, and the parameters follow. -/
def read (mem : List UInt8) (p : Nat) : TPCCTransactionMarshalled where
  txnType := UInt8.ofNat (field mem (p + 0) 1)
  params := Vector.ofFn fun i => UInt32.ofNat (field mem (p + (1 + 4 * i.val)) 4)

/-- The pointers, behind the parameters. -/
def readCownPtrs (mem : List UInt8) (p : Nat) : Vector UInt64 33 :=
  Vector.ofFn fun i => UInt64.ofNat (field mem (p + (261 + 8 * i.val)) 8)

end TPCCTransactionMarshalled

namespace GenLog

/-! ## tpcc/gen-log/generate_tpcc.py -/

/-- The first fifteen values, or zeros where there are none. -/
def padded (xs : List Nat) : List Nat :=
  (List.range 15).map fun i => if h : i < xs.length then xs[i] else 0

/-- The values that are packed up to the fiftieth row. -/
def headWords (params : Params) : List Nat :=
  [params.wId, params.dId, params.cId, params.olCnt, params.oEntryD] ++
    padded params.iIds ++ padded params.iWIds ++ padded params.iQtys

def headFields (type : Nat) (params : Params) : List (Nat × Nat) :=
  (1, type) :: (headWords params).map fun v => (4, v)

def countFields (params : Params) : List (Nat × Nat) :=
  [(4, params.iIds.length), (4, params.iIds.length)]

/-- Of a Payment only. -/
def tailFields (type : Nat) (params : Params) : List (Nat × Nat) :=
  if type = 1 then
    [(8, params.hAmount), (4, params.cWId), (4, params.cDId), (4, 0), (4, params.hDate)]
  else []

/-- `generate_struct`; a value that does not fit its format is a `struct.error`. -/
def generateStruct (type : Nat) (params : Params) : Option (List UInt8) := do
  let head ← packAll (headFields type params)
  guard (head.length = 50 * 4 + 1)
  let counts ← packAll (countFields params)
  let tail ← packAll (tailFields type params)
  let struct := head ++ counts ++ tail
  let struct := struct ++ List.replicate (576 - struct.length) 0
  guard (struct.length = 576)
  return struct

/-- The file that the script writes for transactions given by their types and
parameters. -/
def genLog (txns : List (Nat × Params)) : Option (List UInt8) := do
  let count ← pack 4 txns.length
  let records ← txns.mapM fun t => generateStruct t.1 t.2
  return count ++ records.flatten

/-! ## The words of a record -/

def tailWords (type : Nat) (params : Params) : List Nat :=
  if type = 1 then
    [params.hAmount % 2 ^ 32, params.hAmount / 2 ^ 32, params.cWId, params.cDId, 0, params.hDate]
  else []

/-- The record behind its first byte, in words of four bytes: the amount of a
Payment takes two. -/
def words (type : Nat) (params : Params) : List Nat :=
  headWords params ++ [params.iIds.length, params.iIds.length] ++ tailWords type params

/-- The bytes of a record. -/
def structBytes (type : Nat) (params : Params) : List UInt8 :=
  UInt8.ofNat type :: ((words type params).flatMap (leBytes 4) ++
    List.replicate (575 - 4 * (words type params).length) 0)

theorem length_padded (xs : List Nat) : (padded xs).length = 15 := by
  rw [padded, List.length_map, List.length_range]

theorem getD_padded (xs : List Nat) {k : Nat} (h : k < 15) :
    (padded xs).getD k 0 = xs.getD k 0 := by
  rw [List.getD_eq_getElem _ 0 (by rwa [length_padded])]
  simp only [padded, List.getElem_map, List.getElem_range]
  split
  · rename_i hk
    rw [List.getD_eq_getElem xs 0 hk]
  · rename_i hk
    rw [List.getD_eq_default xs 0 (Nat.le_of_not_lt hk)]

theorem length_headWords (params : Params) : (headWords params).length = 50 := by
  simp only [headWords, List.length_append, length_padded, List.length_cons, List.length_nil]

theorem length_words (type : Nat) (params : Params) :
    (words type params).length = if type = 1 then 58 else 52 := by
  unfold words tailWords
  split <;> simp only [List.length_append, length_headWords, List.length_cons, List.length_nil]

theorem length_flatMap_leBytes (ws : List Nat) : (ws.flatMap (leBytes 4)).length = 4 * ws.length :=
  length_flatMap_const fun w _ => length_leBytes 4 w

theorem length_structBytes (type : Nat) (params : Params) :
    (structBytes type params).length = TPCCTransactionMarshalled.size := by
  have hlen := length_words type params
  rw [structBytes, List.length_cons, List.length_append, length_flatMap_leBytes,
    List.length_replicate, TPCCTransactionMarshalled.size]
  split at hlen <;> omega

/-! ### Packed fields are words -/

section

variable (type : Nat) (params : Params)

/-- The bytes of packed fields. -/
def fieldBytes (fields : List (Nat × Nat)) : List UInt8 := fields.flatMap fun f => leBytes f.1 f.2

theorem head_bytes : fieldBytes (headFields type params) =
    UInt8.ofNat type :: (headWords params).flatMap (leBytes 4) := by
  unfold fieldBytes headFields
  rw [List.flatMap_cons, List.flatMap_map]
  rfl

theorem count_bytes : fieldBytes (countFields params) =
    [params.iIds.length, params.iIds.length].flatMap (leBytes 4) := rfl

/-- The amount is packed as its low and its high word. -/
theorem tail_bytes :
    fieldBytes (tailFields type params) = (tailWords type params).flatMap (leBytes 4) := by
  unfold fieldBytes tailFields tailWords
  split
  · have hlow : leBytes 4 (params.hAmount % 2 ^ 32) = leBytes 4 params.hAmount :=
      leBytes_mod 4 params.hAmount
    simp only [List.flatMap_cons, List.flatMap_nil, leBytes_add 4 4 params.hAmount, hlow,
      List.append_assoc]
    rfl
  · rfl

theorem body_bytes : fieldBytes (headFields type params) ++ fieldBytes (countFields params) ++
    fieldBytes (tailFields type params) =
      UInt8.ofNat type :: (words type params).flatMap (leBytes 4) := by
  rw [head_bytes, count_bytes, tail_bytes, words, List.flatMap_append, List.flatMap_append,
    List.cons_append, List.cons_append]

variable {type params}

theorem head_fits : (∀ f ∈ headFields type params, f.2 < 256 ^ f.1) ↔
    type < 256 ∧ ∀ w ∈ headWords params, w < 2 ^ 32 := by
  unfold headFields
  rw [List.forall_mem_cons, List.forall_mem_map]
  rfl

theorem count_fits : (∀ f ∈ countFields params, f.2 < 256 ^ f.1) ↔
    ∀ w ∈ [params.iIds.length, params.iIds.length], w < 2 ^ 32 := by
  simp [countFields]

theorem tail_fits : (∀ f ∈ tailFields type params, f.2 < 256 ^ f.1) ↔
    ∀ w ∈ tailWords type params, w < 2 ^ 32 := by
  have hamount : params.hAmount < 256 ^ 8 ↔
      params.hAmount % 2 ^ 32 < 2 ^ 32 ∧ params.hAmount / 2 ^ 32 < 2 ^ 32 := by
    rw [Nat.div_lt_iff_lt_mul (by decide)]
    exact ⟨fun h => ⟨Nat.mod_lt _ (by decide), h⟩, fun h => h.2⟩
  have hword : 256 ^ 4 = 2 ^ 32 := rfl
  unfold tailFields tailWords
  split
  · simp only [List.forall_mem_cons, List.not_mem_nil, false_imp_iff, implies_true, hword, hamount,
      and_assoc]
  · simp

end

/-- **What a record is made of.** -/
theorem generateStruct_eq_some {type : Nat} {params : Params} {record : List UInt8} :
    generateStruct type params = some record ↔
      type < 256 ∧ (∀ w ∈ words type params, w < 2 ^ 32) ∧ record = structBytes type params := by
  have hbody := body_bytes type params
  have hhead : (fieldBytes (headFields type params)).length = 50 * 4 + 1 := by
    rw [head_bytes, List.length_cons, length_flatMap_leBytes, length_headWords]
  have hstruct : fieldBytes (headFields type params) ++ fieldBytes (countFields params) ++
      fieldBytes (tailFields type params) ++ List.replicate (576 -
        (fieldBytes (headFields type params) ++ fieldBytes (countFields params) ++
          fieldBytes (tailFields type params)).length) 0 = structBytes type params := by
    have hpad : 576 - (4 * (words type params).length + 1) = 575 - 4 * (words type params).length :=
      Nat.add_sub_add_right 575 1 _
    rw [hbody, structBytes, List.length_cons, length_flatMap_leBytes, hpad, List.cons_append]
  have hfits : (∀ w ∈ words type params, w < 2 ^ 32) ↔ (∀ w ∈ headWords params, w < 2 ^ 32) ∧
      (∀ w ∈ [params.iIds.length, params.iIds.length], w < 2 ^ 32) ∧
        ∀ w ∈ tailWords type params, w < 2 ^ 32 := by
    unfold words
    rw [List.forall_mem_append, List.forall_mem_append, and_assoc]
  unfold generateStruct
  simp only [Option.bind_eq_bind, Option.bind_eq_some_iff, packAll_eq_some,
    Option.guard_eq_some', head_fits, count_fits, tail_fits, hfits]
  constructor
  · rintro ⟨_, ⟨⟨ht, hh⟩, rfl⟩, -, -, _, ⟨hc, rfl⟩, _, ⟨htl, rfl⟩, -, -, hrec⟩
    exact ⟨ht, ⟨hh, hc, htl⟩, (Option.some.inj hrec).symm.trans hstruct⟩
  · rintro ⟨ht, ⟨hh, hc, htl⟩, rfl⟩
    refine ⟨_, ⟨⟨ht, hh⟩, rfl⟩, (), hhead, _, ⟨hc, rfl⟩, _, ⟨htl, rfl⟩, (), ?_,
      congrArg some hstruct⟩
    exact (congrArg List.length hstruct).trans (length_structBytes type params)

/-! ## Reading -/

section

variable (type : Nat) (params : Params)

theorem structBytes_eq : structBytes type params = leBytes 1 type ++
    ((words type params).flatMap (leBytes 4) ++
      List.replicate (575 - 4 * (words type params).length) 0) := rfl

theorem read_txnType :
    (TPCCTransactionMarshalled.read (structBytes type params) 0).txnType = UInt8.ofNat type := by
  have hfield : field (structBytes type params) 0 1 = type % 256 ^ 1 := by
    rw [structBytes_eq, field_append_left _ _ (Nat.le_of_eq (length_leBytes 1 type).symm),
      field_leBytes]
  apply UInt8.toNat_inj.mp
  rw [TPCCTransactionMarshalled.read, hfield, UInt8.toNat_ofNat', UInt8.toNat_ofNat']
  exact Nat.mod_mod _ _

/-- **The dispatcher reads the words.** -/
theorem read_params {i : Nat} (hi : i < 65) :
    (TPCCTransactionMarshalled.read (structBytes type params) 0).params[i] =
      UInt32.ofNat ((words type params).getD i 0) := by
  have hoff : 0 + (1 + 4 * i) = (leBytes 1 type).length + 4 * i := Nat.zero_add _
  apply UInt32.toNat_inj.mp
  rw [TPCCTransactionMarshalled.read, Vector.getElem_ofFn, hoff, structBytes_eq,
    field_append_right, field_words, UInt32.toNat_ofNat', UInt32.toNat_ofNat']
  exact Nat.mod_mod _ _

/-- Behind the words there are zeros. -/
theorem read_cownPtrs : TPCCTransactionMarshalled.readCownPtrs (structBytes type params) 0 =
    Vector.replicate 33 0 := by
  have hlen := length_words type params
  ext i hi
  have hoff : 0 + (261 + 8 * i) = (leBytes 1 type).length + (260 + 8 * i) := by
    rw [length_leBytes]
    omega
  rw [TPCCTransactionMarshalled.readCownPtrs, Vector.getElem_ofFn, hoff,
    structBytes_eq, field_append_right, field_zeros, Vector.getElem_replicate]
  · rfl
  · rw [length_flatMap_leBytes]
    split at hlen <;> omega

/-! ### The words by their place -/

theorem getD_append_add (as bs : List Nat) (k : Nat) :
    (as ++ bs).getD (as.length + k) 0 = bs.getD k 0 := by
  rw [List.getD_append_right as bs 0 _ (Nat.le_add_right _ _), Nat.add_sub_cancel_left]

theorem words_tail (k : Nat) : (words type params).getD (50 + k) 0 =
    ([params.iIds.length, params.iIds.length] ++ tailWords type params).getD k 0 := by
  rw [words, List.append_assoc, ← length_headWords params, getD_append_add]

theorem words_head {k : Nat} (hk : k < 50) :
    (words type params).getD k 0 = (headWords params).getD k 0 := by
  rw [words, List.append_assoc, List.getD_append]
  rwa [length_headWords]

theorem words_iQty {k : Nat} (hk : k < 15) :
    (words type params).getD (35 + k) 0 = params.iQtys.getD k 0 := by
  have hlen : 35 = ([params.wId, params.dId, params.cId, params.olCnt, params.oEntryD] ++
      padded params.iIds ++ padded params.iWIds).length := by
    simp only [List.length_append, length_padded, List.length_cons, List.length_nil]
  rw [words_head type params (by omega), headWords, hlen, getD_append_add, getD_padded _ hk]

theorem words_iWId {k : Nat} (hk : k < 15) :
    (words type params).getD (20 + k) 0 = params.iWIds.getD k 0 := by
  have hlen : 20 = ([params.wId, params.dId, params.cId, params.olCnt, params.oEntryD] ++
      padded params.iIds).length := by
    simp only [List.length_append, length_padded, List.length_cons, List.length_nil]
  rw [words_head type params (by omega), headWords, List.append_assoc _ (padded params.iWIds),
    hlen, getD_append_add, List.getD_append, getD_padded _ hk]
  rwa [length_padded]

theorem words_iId {k : Nat} (hk : k < 15) :
    (words type params).getD (5 + k) 0 = params.iIds.getD k 0 := by
  have hlen : 5 = [params.wId, params.dId, params.cId, params.olCnt, params.oEntryD].length := rfl
  rw [words_head type params (by omega), headWords, List.append_assoc, List.append_assoc, hlen,
    getD_append_add, List.getD_append, getD_padded _ hk]
  rwa [length_padded]

end

/-! ## What the dispatcher consumes -/

def Params.values (params : Params) : List Nat :=
  [params.wId, params.dId, params.cId, params.olCnt, params.oEntryD, params.hAmount, params.cWId,
    params.cDId, params.hDate] ++ params.iIds ++ params.iWIds ++ params.iQtys

/-- A NewOrder or a Payment with up to fifteen items and values of 32 bits. -/
structure Params.Fits (type : Nat) (params : Params) : Prop where
  type : type = 0 ∨ type = 1
  items : params.iIds.length ≤ 15
  supplies : params.iWIds.length = params.iIds.length
  quantities : params.iQtys.length = params.iIds.length
  values : ∀ v ∈ params.values, v < 2 ^ 32

/-- The record shows the parameters that a transaction depends on. -/
structure Consumed (type : Nat) (params : Params) (txm : TPCCTransactionMarshalled) : Prop where
  txnType : txm.txnType.toNat = type
  wId : txm.wId.toNat = params.wId
  dId : txm.dId.toNat = params.dId
  cId : txm.cId.toNat = params.cId
  numberOfItems : txm.numberOfItems.toNat = params.iIds.length
  iIds : (txm.lines.map fun k => (txm.iId k).toNat) = params.iIds
  iWIds : (txm.lines.map fun k => (txm.iWId k).toNat) = params.iWIds
  iQtys : (txm.lines.map fun k => (txm.iQty k).toNat) = params.iQtys
  hAmount : txm.hAmount.toNat = if type = 1 then params.hAmount else 0

section

variable {type : Nat} {params : Params}

theorem mem_padded {xs : List Nat} {v : Nat} (h : v ∈ padded xs) : v ∈ xs ∨ v = 0 := by
  obtain ⟨k, -, rfl⟩ := List.mem_map.mp h
  split
  · exact .inl (List.getElem_mem _)
  · exact .inr rfl

theorem Params.Fits.words (h : params.Fits type) :
    ∀ w ∈ GenLog.words type params, w < 2 ^ 32 := by
  have hv := h.values
  have hitems := h.items
  have hpad : ∀ xs : List Nat, (∀ v ∈ xs, v < 2 ^ 32) → ∀ w ∈ padded xs, w < 2 ^ 32 := by
    intro xs hxs w hw
    rcases mem_padded hw with hw | rfl
    · exact hxs w hw
    · decide
  simp only [Params.values, List.forall_mem_append, List.forall_mem_cons] at hv
  obtain ⟨⟨⟨⟨hw, hd, hc, ho, ht, ha, hcw, hcd, hh, -⟩, hi⟩, hs⟩, hq⟩ := hv
  have hcount : params.iIds.length < 2 ^ 32 := Nat.lt_of_le_of_lt hitems (by decide)
  have htail : ∀ w ∈ tailWords type params, w < 2 ^ 32 := by
    unfold tailWords
    split
    · have hlow : params.hAmount % 2 ^ 32 < 2 ^ 32 := Nat.mod_lt _ (by decide)
      have hhigh : params.hAmount / 2 ^ 32 < 2 ^ 32 :=
        Nat.lt_of_le_of_lt (Nat.div_le_self _ _) ha
      simp only [List.forall_mem_cons, List.not_mem_nil, false_imp_iff, implies_true, and_true]
      exact ⟨hlow, hhigh, hcw, hcd, by decide, hh⟩
    · simp
  simp only [GenLog.words, headWords, List.forall_mem_append, List.forall_mem_cons,
    List.not_mem_nil, false_imp_iff, implies_true, and_true]
  exact ⟨⟨⟨⟨⟨⟨hw, hd, hc, ho, ht⟩, hpad _ hi⟩, hpad _ hs⟩, hpad _ hq⟩, hcount, hcount⟩, htail⟩

/-- Parameters that fit are marshalled. -/
theorem Params.Fits.generateStruct (h : params.Fits type) :
    GenLog.generateStruct type params = some (structBytes type params) := by
  have htype : type < 256 := by
    rcases h.type with rfl | rfl <;> decide
  exact generateStruct_eq_some.mpr ⟨htype, h.words, rfl⟩

theorem getD_lt {ws : List Nat} (h : ∀ w ∈ ws, w < 2 ^ 32) (i : Nat) : ws.getD i 0 < 2 ^ 32 := by
  rcases Nat.lt_or_ge i ws.length with hi | hi
  · rw [List.getD_eq_getElem ws 0 hi]
    exact h _ (List.getElem_mem hi)
  · rw [List.getD_eq_default ws 0 hi]
    decide

/-- The words of a list that come back through the lines of a record. -/
theorem map_lines {txm : TPCCTransactionMarshalled} {xs : List Nat} {f : Fin 15 → UInt32}
    (hn : txm.numberOfItems.toNat = xs.length) (h15 : xs.length ≤ 15)
    (hf : ∀ k : Fin 15, (f k).toNat = xs.getD k.val 0) :
    (txm.lines.map fun k => (f k).toNat) = xs := by
  unfold TPCCTransactionMarshalled.lines
  apply List.ext_getElem
  · rw [List.length_map, List.length_take, List.length_finRange, hn]
    exact Nat.min_eq_left h15
  · intro k hk hk'
    rw [List.getElem_map, List.getElem_take, List.getElem_finRange, hf]
    exact List.getD_eq_getElem xs 0 hk'

theorem read_word (h : ∀ w ∈ words type params, w < 2 ^ 32) {i : Nat} (hi : i < 65) :
    (TPCCTransactionMarshalled.read (structBytes type params) 0).params[i].toNat =
      (words type params).getD i 0 := by
  rw [read_params type params hi]
  exact UInt32.toNat_ofNat_of_lt' (getD_lt h i)

/-- **One record.** -/
theorem Params.Fits.consumed (h : params.Fits type) :
    Consumed type params (.read (structBytes type params) 0) := by
  have hword : ∀ {i : Nat} (hi : i < 65),
      (TPCCTransactionMarshalled.read (structBytes type params) 0).params[i].toNat =
        (GenLog.words type params).getD i 0 := read_word h.words
  have hn : (TPCCTransactionMarshalled.read (structBytes type params) 0).numberOfItems.toNat =
      params.iIds.length := (hword (by decide)).trans (words_tail type params 0)
  have hamount : params.hAmount < 2 ^ 32 := h.values _ (by simp [Params.values])
  constructor
  · rw [read_txnType]
    rcases h.type with rfl | rfl <;> rfl
  · exact hword (by decide)
  · exact hword (by decide)
  · exact hword (by decide)
  · exact hn
  · exact map_lines hn h.items fun k => (hword (by omega)).trans (words_iId type params k.isLt)
  · exact map_lines (hn.trans h.supplies.symm) (h.supplies ▸ h.items) fun k =>
      (hword (by omega)).trans (words_iWId type params k.isLt)
  · exact map_lines (hn.trans h.quantities.symm) (h.quantities ▸ h.items) fun k =>
      (hword (by omega)).trans (words_iQty type params k.isLt)
  · refine (hword (by decide)).trans ((words_tail type params 2).trans ?_)
    unfold tailWords
    split
    · exact Nat.mod_eq_of_lt hamount
    · rfl

end

/-! ## The log -/

/-- The log in a mapped file. -/
def log (mem : List UInt8) : Log := Log.ofFile TPCCTransactionMarshalled.size (by decide) mem

theorem read_congr {mem mem' : List UInt8} {p p' : Nat}
    (h : ∀ {o m : Nat}, o + m ≤ TPCCTransactionMarshalled.size →
      field mem (p + o) m = field mem' (p' + o) m) :
    TPCCTransactionMarshalled.read mem p = .read mem' p' ∧
      TPCCTransactionMarshalled.readCownPtrs mem p =
        TPCCTransactionMarshalled.readCownPtrs mem' p' := by
  have hsize : TPCCTransactionMarshalled.size = 576 := rfl
  constructor
  · unfold TPCCTransactionMarshalled.read
    rw [TPCCTransactionMarshalled.mk.injEq, h (by decide)]
    refine ⟨rfl, ?_⟩
    ext i hi
    rw [Vector.getElem_ofFn, Vector.getElem_ofFn, h (by omega)]
  · ext i hi
    rw [TPCCTransactionMarshalled.readCownPtrs, TPCCTransactionMarshalled.readCownPtrs,
      Vector.getElem_ofFn, Vector.getElem_ofFn, h (by omega)]

theorem genLog_eq_some {txns : List (Nat × Params)} (h : ∀ t ∈ txns, t.2.Fits t.1)
    {file : List UInt8} : genLog txns = some file ↔ txns.length < 2 ^ 32 ∧
      file = logFile txns.length (fun t => structBytes t.1 t.2) txns := by
  have hrecords : (txns.mapM fun t => generateStruct t.1 t.2) =
      some (txns.map fun t => structBytes t.1 t.2) :=
    mapM_eq_some.mpr (List.forall₂_map_right_iff.mpr
      (List.forall₂_same.mpr fun t ht => (h t ht).generateStruct))
  unfold genLog logFile
  rw [hrecords, List.flatMap_def]
  simp only [Option.bind_eq_bind, Option.bind_eq_some_iff, pack_eq_some, Option.pure_def,
    Option.some.injEq]
  constructor
  · rintro ⟨_, ⟨hlen, rfl⟩, _, rfl, rfl⟩
    exact ⟨hlen, rfl⟩
  · rintro ⟨hlen, rfl⟩
    exact ⟨_, ⟨hlen, rfl⟩, _, rfl, rfl⟩

/-- A file that was written is read back record by record. -/
theorem genLog_records {txns : List (Nat × Params)} (h : ∀ t ∈ txns, t.2.Fits t.1)
    {file : List UInt8} (hfile : genLog txns = some file) :
    (log file).readCount = txns.length ∧ file.length = 4 + 576 * txns.length ∧
      ∀ (k : Nat) (hk : k < txns.length),
        Consumed txns[k].1 txns[k].2 (.read file ((log file).record k)) ∧
          TPCCTransactionMarshalled.readCownPtrs file ((log file).record k) =
            Vector.replicate 33 0 := by
  obtain ⟨hlen, rfl⟩ := (genLog_eq_some h).mp hfile
  have hsize : ∀ t ∈ txns, (structBytes t.1 t.2).length = TPCCTransactionMarshalled.size :=
    fun t _ => length_structBytes t.1 t.2
  refine ⟨?_, length_logFile hsize, fun k hk => ?_⟩
  · exact (readCount_logFile (by decide)).trans (Nat.mod_eq_of_lt hlen)
  · have hfield : ∀ {o m : Nat}, o + m ≤ TPCCTransactionMarshalled.size →
        field (logFile txns.length (fun t => structBytes t.1 t.2) txns)
            ((log (logFile txns.length (fun t => structBytes t.1 t.2) txns)).record k + o) m =
          field (structBytes txns[k].1 txns[k].2) (0 + o) m := by
      intro o m ho
      rw [Nat.zero_add]
      exact field_logFile (by decide) hsize hk ho
    obtain ⟨hread, hptrs⟩ := read_congr hfield
    rw [hread, hptrs, read_cownPtrs]
    exact ⟨(h _ (List.getElem_mem hk)).consumed, rfl⟩

/-- **Round trip** of what the dispatcher consumes. -/
theorem records_round_trip (txns : List (Nat × Params)) (h : ∀ t ∈ txns, t.2.Fits t.1) :
    (txns.length < 2 ^ 32 → ∃ file, genLog txns = some file) ∧
      ∀ file, genLog txns = some file → (log file).readCount = txns.length ∧
        file.length = 4 + 576 * txns.length ∧
          ∀ (k : Nat) (hk : k < txns.length),
            Consumed txns[k].1 txns[k].2 (.read file ((log file).record k)) ∧
              TPCCTransactionMarshalled.readCownPtrs file ((log file).record k) =
                Vector.replicate 33 0 :=
  ⟨fun hlen => ⟨_, (genLog_eq_some h).mpr ⟨hlen, rfl⟩⟩, fun _ hfile => genLog_records h hfile⟩

/-! ### Two transactions -/

def exampleScale : ScaleParameters :=
  ⟨100000, 1, 10, 3000, 900, by decide, by decide, by decide, by decide, by decide⟩

def exampleNURand : NURandC := ⟨0, 0, 0, by decide, by decide, by decide⟩

def exampleOrder : Params :=
  ⟨1, 1, 2, 5, 1700000000, [2, 3, 4, 5, 6], [1, 1, 1, 1, 1], [7, 7, 7, 7, 7], 0, 0, 0, 0⟩

def examplePaid : Params := ⟨1, 1, 2, 0, 0, [], [], [], 123, 1, 1, 1700000000⟩

theorem exampleOrder_fits : exampleOrder.Fits 0 := ⟨.inl rfl, by decide, rfl, rfl, by decide⟩

theorem examplePaid_fits : examplePaid.Fits 1 := ⟨.inr rfl, by decide, rfl, rfl, by decide⟩

theorem records_round_trip_two : ∃ file,
    genLog [(0, exampleOrder), (1, examplePaid)] = some file ∧ (log file).readCount = 2 ∧
      Consumed 0 exampleOrder (.read file ((log file).record 0)) ∧
        Consumed 1 examplePaid (.read file ((log file).record 1)) := by
  have hfits : ∀ t ∈ [(0, exampleOrder), (1, examplePaid)], t.2.Fits t.1 := by
    intro t ht
    simp only [List.mem_cons, List.not_mem_nil, or_false] at ht
    rcases ht with rfl | rfl
    · exact exampleOrder_fits
    · exact examplePaid_fits
  obtain ⟨hwritten, hread⟩ := records_round_trip _ hfits
  obtain ⟨file, hfile⟩ := hwritten (by decide)
  obtain ⟨hcount, -, hrecord⟩ := hread file hfile
  exact ⟨file, hfile, hcount, (hrecord 0 (by decide)).1, (hrecord 1 (by decide)).1⟩

/-! ## The tail of a Payment -/

/-- The fields of a Payment are read where the comments of both programs place them. -/
structure FieldsSurvive (params : Params) (txm : TPCCTransactionMarshalled) : Prop where
  hAmount : txm.hAmount.toNat = params.hAmount
  cWId : txm.params[53].toNat = params.cWId
  cDId : txm.params[54].toNat = params.cDId
  hDate : txm.params[56].toNat = params.hDate

/-- The amount takes two words, so the fields behind it come one word late. -/
theorem read_tail {params : Params} (h : ∀ w ∈ words 1 params, w < 2 ^ 32) {k : Nat} (hk : k < 6) :
    (TPCCTransactionMarshalled.read (structBytes 1 params) 0).params[52 + k].toNat =
      [params.hAmount % 2 ^ 32, params.hAmount / 2 ^ 32, params.cWId, params.cDId, 0,
        params.hDate].getD k 0 := by
  have hplace : 52 + k = 50 + (2 + k) := Nat.add_assoc 50 2 k
  have hskip := getD_append_add [params.iIds.length, params.iIds.length] (tailWords 1 params) k
  rw [read_word h (by omega), hplace, words_tail]
  exact hskip

/-- On small amounts only Payments without a customer's home and a date come back. -/
theorem fieldsSurvive_iff {params : Params} (h : ∀ w ∈ words 1 params, w < 2 ^ 32)
    (ha : params.hAmount < 2 ^ 32) : FieldsSurvive params (.read (structBytes 1 params) 0) ↔
      params.cWId = 0 ∧ params.cDId = 0 ∧ params.hDate = 0 := by
  have hamount := (read_tail h (k := 0) (by decide)).trans (Nat.mod_eq_of_lt ha)
  have hhigh := (read_tail h (k := 1) (by decide)).trans (Nat.div_eq_of_lt ha)
  have hcw := read_tail h (k := 2) (by decide)
  have hzero := read_tail h (k := 4) (by decide)
  constructor
  · rintro ⟨-, h₁, h₂, h₃⟩
    exact ⟨h₁.symm.trans hhigh, h₂.symm.trans (hcw.trans (h₁.symm.trans hhigh)),
      h₃.symm.trans hzero⟩
  · rintro ⟨h₁, h₂, h₃⟩
    exact ⟨hamount, hhigh.trans h₁.symm, hcw.trans (h₁.trans h₂.symm), hzero.trans h₃.symm⟩

theorem Params.Payment.not_fieldsSurvive {sp : ScaleParameters} {now : Nat} {params : Params}
    {record : List UInt8} (h : params.Payment sp now)
    (hr : generateStruct 1 params = some record) : ¬ FieldsSurvive params (.read record 0) := by
  obtain ⟨-, hwords, rfl⟩ := generateStruct_eq_some.mp hr
  have hsmall : params.hAmount < 2 ^ 32 := Nat.lt_of_le_of_lt h.amount (by decide)
  intro hs
  have hhome := ((fieldsSurvive_iff hwords hsmall).mp hs).1
  exact absurd (hhome ▸ h.cW.1) (by decide)

/-- **No generated Payment keeps its fields.** -/
theorem payment_fields_lost (sp : ScaleParameters) (nu : NURandC) (now : Nat)
    {draws rest : List Nat} {params : Params} {record : List UInt8}
    (h : generatePaymentParams sp nu now draws = some (params, rest))
    (hr : generateStruct 1 params = some record) : ¬ FieldsSurvive params (.read record 0) :=
  (ensures_payment sp nu now draws params rest h).not_fieldsSurvive hr

theorem examplePaid_drawn : generatePaymentParams exampleScale exampleNURand 1700000000
    [50, 1, 1, 1, 12300, 0, 1, 0, 0] = some (examplePaid, []) := rfl

theorem payment_fields_lost_example :
    ¬ FieldsSurvive examplePaid (.read (structBytes 1 examplePaid) 0) :=
  payment_fields_lost exampleScale exampleNURand 1700000000 examplePaid_drawn
    examplePaid_fits.generateStruct

/-- The warehouse of the customer is read as zero and the district as the warehouse. -/
theorem payment_shifted :
    generatePaymentParams exampleScale exampleNURand 1700000000
        [50, 1, 1, 1, 12300, 0, 1, 0, 0] = some (examplePaid, []) ∧
      ∃ record, generateStruct 1 examplePaid = some record ∧
        ¬ FieldsSurvive examplePaid (.read record 0) := by
  refine ⟨examplePaid_drawn, _, examplePaid_fits.generateStruct, fun hs => ?_⟩
  exact absurd ((fieldsSurvive_iff examplePaid_fits.words (by decide)).mp hs).1 (by decide)

end GenLog

end Doradd.Tpcc
