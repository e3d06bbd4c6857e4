import Doradd.Dispatcher.LogFile
import Doradd.Ycsb.Transaction

/-!
# The YCSB log

The generator writes a transaction byte by byte; the dispatcher reads it through a
packed struct on a little-endian machine.

* `read_genBinTxn`: the struct shows the transaction that was written;
* `length_readLog`: the count of the file has 32 bits;
* `log_round_trip`: a log that it can count is read back as it was written.
-/

namespace Doradd.Ycsb

open Lib

/-! ## ycsb/gen-log/generate_ycsb_zipf.cc -/

/-- What `gen_keys` and `gen_write_set` return. -/
structure Txn where
  keys : Vector UInt32 rowsPerTx
  ws : UInt16

/-- `byte = (key >> (i * 8)) & 0xFF` for every `i` below `sizeof(uint32_t)`. -/
def keyBytes (key : UInt32) : List UInt8 :=
  (List.range 4).map fun i => ((key >>> UInt32.ofNat (i * 8)) &&& 0xFF).toUInt8

/-- `gen_bin_txn`; the write set is written as it lies in memory. -/
def genBinTxn (t : Txn) : List UInt8 :=
  let padding := 86
  t.keys.toList.flatMap keyBytes ++ (leBytes 2 t.ws.toNat ++ List.replicate padding 0)

/-- The file that `main` writes, with a `uint32_t` count. -/
def genLog (txns : List Txn) : List UInt8 :=
  logFile (UInt32.ofNat txns.length).toNat genBinTxn txns

/-! ## ycsb.cc -/

/-- The fields of the packed struct, but for its padding. -/
structure YCSBTransactionMarshalled where
  indices : Vector UInt32 rowsPerTx
  writeSet : UInt16
  cownPtrs : Vector UInt64 rowsPerTx

namespace YCSBTransactionMarshalled

/-- `sizeof(YCSBTransactionMarshalled)` -/
def size : Nat := 128

/-- `reinterpret_cast<YCSBTransactionMarshalled*>`: the fields lie at offsets 0, 40
and 42. -/
def read (mem : List UInt8) (p : Nat) : YCSBTransactionMarshalled where
  indices := Vector.ofFn fun i => UInt32.ofNat (field mem (p + 4 * i.val) 4)
  writeSet := UInt16.ofNat (field mem (p + 40) 2)
  cownPtrs := Vector.ofFn fun i => UInt64.ofNat (field mem (p + (42 + 8 * i.val)) 8)

end YCSBTransactionMarshalled

/-- The records that the dispatcher goes through in one pass over a file. -/
def readLog (mem : List UInt8) : List YCSBTransactionMarshalled :=
  let log := Log.ofFile YCSBTransactionMarshalled.size (by decide) mem
  (List.range log.readCount).map fun k => .read mem (log.record k)

/-- The transaction as the dispatcher sees it before any pointer is resolved. -/
def Txn.marshalled (t : Txn) : YCSBTransactionMarshalled := ⟨t.keys, t.ws, Vector.replicate _ 0⟩

/-! ## One record -/

/-- The shifts take the bytes of the key from the lowest up. -/
theorem keyBytes_eq (key : UInt32) : keyBytes key = leBytes 4 key.toNat := by
  have hbyte : ∀ i < 4, ((key >>> UInt32.ofNat (i * 8)) &&& 0xFF).toUInt8 =
      UInt8.ofNat (key.toNat / 256 ^ i) := by
    intro i hi
    apply UInt8.toNat_inj.mp
    have hshift : (UInt32.ofNat (i * 8)).toNat % 32 = i * 8 := by
      rw [UInt32.toNat_ofNat_of_lt' (by simp only [UInt32.size]; omega)]
      exact Nat.mod_eq_of_lt (by omega)
    have hmask : ∀ x : Nat, x &&& 255 = x % 256 := fun x => Nat.and_two_pow_sub_one_eq_mod x 8
    rw [UInt32.toNat_toUInt8, UInt32.toNat_and, UInt32.toNat_shiftRight, hshift,
      UInt8.toNat_ofNat', Nat.shiftRight_eq_div_pow, Nat.mul_comm i 8, Nat.pow_mul]
    exact (congrArg (· % 256) (hmask _)).trans (Nat.mod_mod _ _)
  have hmap : keyBytes key =
      (List.range 4).map fun i => UInt8.ofNat (key.toNat / 256 ^ i) := by
    refine List.map_congr_left fun i hi => hbyte i (List.mem_range.mp hi)
  rw [hmap]
  simp [leBytes, List.range_succ, Nat.div_div_eq_div_mul]

theorem length_keys (t : Txn) : (t.keys.toList.flatMap keyBytes).length = 40 := by
  rw [length_flatMap_const (n := 4) fun key _ => by rw [keyBytes_eq, length_leBytes],
    Vector.length_toList]
  rfl

theorem length_genBinTxn (t : Txn) : (genBinTxn t).length = YCSBTransactionMarshalled.size := by
  rw [genBinTxn, List.length_append, List.length_append, length_keys, length_leBytes,
    List.length_replicate]
  rfl

theorem field_key (t : Txn) {i : Nat} (hi : i < rowsPerTx) :
    field (genBinTxn t) (4 * i) 4 = t.keys[i].toNat := by
  have hlen := length_keys t
  have hi' : i < t.keys.toList.length := by rwa [Vector.length_toList]
  have hlt : i < 10 := hi
  rw [genBinTxn, field_append_left _ _ (by omega)]
  have hfield := field_flatMap (f := keyBytes) (n := 4) (l := t.keys.toList) (o := 0) (m := 4)
    (fun key _ => by rw [keyBytes_eq, length_leBytes]) hi' (Nat.le_refl 4)
  rw [Nat.add_zero] at hfield
  rw [hfield, keyBytes_eq, field_leBytes, Vector.getElem_toList]
  exact Nat.mod_eq_of_lt (UInt32.toNat_lt _)

theorem field_ws (t : Txn) : field (genBinTxn t) 40 2 = t.ws.toNat := by
  have hoff : 40 = (t.keys.toList.flatMap keyBytes).length + 0 := (length_keys t).symm
  rw [genBinTxn, hoff, field_append_right,
    field_append_left _ _ (Nat.le_of_eq (length_leBytes 2 _).symm), field_leBytes]
  exact Nat.mod_eq_of_lt t.ws.toNat_lt

theorem field_ptr (t : Txn) (i : Nat) : field (genBinTxn t) (42 + 8 * i) 8 = 0 := by
  have hoff : 42 + 8 * i = (t.keys.toList.flatMap keyBytes).length +
      ((leBytes 2 t.ws.toNat).length + 8 * i) := by
    rw [length_keys, length_leBytes]
    omega
  rw [genBinTxn, hoff, field_append_right, field_append_right, field_replicate_zero]

/-! ## The log -/

/-- **The struct shows the transaction.** -/
theorem read_genLog (txns : List Txn) {k : Nat} (hk : k < txns.length) :
    YCSBTransactionMarshalled.read (genLog txns)
        ((Log.ofFile YCSBTransactionMarshalled.size (by decide) (genLog txns)).record k) =
      txns[k].marshalled := by
  have hfield : ∀ {o m : Nat}, o + m ≤ 128 →
      field (genLog txns) ((Log.ofFile YCSBTransactionMarshalled.size (by decide)
        (genLog txns)).record k + o) m = field (genBinTxn txns[k]) o m :=
    fun ho => field_logFile _ (fun t _ => length_genBinTxn t) hk ho
  unfold YCSBTransactionMarshalled.read Txn.marshalled
  rw [YCSBTransactionMarshalled.mk.injEq]
  refine ⟨?_, ?_, ?_⟩
  · ext i hi
    have hlt : i < 10 := hi
    have hsize : 4 * i + 4 ≤ 128 := by omega
    rw [Vector.getElem_ofFn, hfield hsize, field_key _ hi, UInt32.ofNat_toNat]
  · rw [hfield (by decide), field_ws, UInt16.ofNat_toNat]
  · ext i hi
    have hlt : i < 10 := hi
    have hsize : 42 + 8 * i + 8 ≤ 128 := by omega
    rw [Vector.getElem_ofFn, hfield hsize, field_ptr, Vector.getElem_replicate]
    rfl

theorem getElem_readLog {mem : List UInt8} {k : Nat} (hk : k < (readLog mem).length) :
    (readLog mem)[k] = .read mem
      ((Log.ofFile YCSBTransactionMarshalled.size (by decide) mem).record k) := by
  simp [readLog]

theorem length_readLog (txns : List Txn) :
    (readLog (genLog txns)).length = txns.length % 2 ^ 32 := by
  unfold readLog
  rw [List.length_map, List.length_range, genLog, readCount_logFile, UInt32.toNat_ofNat',
    Nat.mod_mod]

/-- **Round trip** of a log that 32 bits can count, and the length of its file. -/
theorem log_round_trip (txns : List Txn) (h : txns.length < 2 ^ 32) :
    readLog (genLog txns) = txns.map Txn.marshalled ∧
      (genLog txns).length = 4 + 128 * txns.length := by
  constructor
  · apply List.ext_getElem
    · rw [length_readLog, List.length_map, Nat.mod_eq_of_lt h]
    · intro k hk hk'
      rw [List.length_map] at hk'
      rw [getElem_readLog, List.getElem_map]
      exact read_genLog txns hk'
  · exact length_logFile fun t _ => length_genBinTxn t

def exampleTxn : Txn := ⟨Vector.ofFn fun i => UInt32.ofNat (1000000 * i.val + 7), 3⟩

theorem log_round_trip_two :
    readLog (genLog [exampleTxn, exampleTxn]) = [exampleTxn, exampleTxn].map Txn.marshalled ∧
      (genLog [exampleTxn, exampleTxn]).length = 4 + 128 * [exampleTxn, exampleTxn].length :=
  log_round_trip [exampleTxn, exampleTxn] (by decide)

/-- A log of `2 ^ 32` transactions is counted as empty. -/
theorem count_wraps :
    readLog (genLog (List.replicate (2 ^ 32) exampleTxn)) ≠
      (List.replicate (2 ^ 32) exampleTxn).map Txn.marshalled := by
  intro he
  have hlen := congrArg List.length he
  rw [length_readLog, List.length_map, List.length_replicate] at hlen
  exact absurd hlen (by decide)

end Doradd.Ycsb
