import Mathlib.Data.Fin.Basic
import Mathlib.Data.Set.List
import Doradd.Lib.Interleaving
import Doradd.Dispatcher.Program
import Doradd.Ycsb.Prepare
import Doradd.Ycsb.Serial

/-!
# The YCSB program as a whole

A file of transactions is mapped; the threads of the pipeline resolve the pointers of its
records, prefetch them and spawn their bodies; the workers run the bodies side by side, row
by row.

* `resolves`: a record spawns the body of the transaction that was written to the file;
* `system_serial`: whatever the order of all these steps, rows that nobody is working on
  are those of a serial run in the order of the replay;
* `first_pass_serial`: before the log is replayed the result depends on nothing but the
  number of transactions;
* `first_pass_completes`, `file_completes`: from every state everything that was received
  can be run to its end.
-/

namespace Doradd.Ycsb

open Lib

/-! ## ycsb.cc -/

/-- The `when` of a transaction: the positions of the rows behind the cowns that it is
given, in order, and what its body captures. -/
structure When where
  rows : List Nat
  wsCap : UInt16

instance : Inhabited When := ⟨⟨[], 0⟩⟩

/-- The bodies: `TXN(0)` to `TXN(9)` in order, with `sum` and `write_set_l` as local
variables. -/
def bodies : Bodies When (UInt8 × UInt16) Nat Nat YCSBRow where
  cowns := When.rows
  start := fun w => (0, w.wsCap)
  acts := When.rows
  act := fun i x =>
    let s := txn ⟨x.2, x.1.1, x.1.2⟩ i
    ((s.sum, s.writeSetL), s.rows)
  frame := by
    intro w i hi x j hj
    refine txn_frame ⟨x.2, x.1.1, x.1.2⟩ ?_
    rintro rfl
    exact hj hi
  reads := by
    intro w i hi x y hxy
    have hstart : Body.Agree { j | j ∈ w.rows } ⟨x.2, x.1.1, x.1.2⟩ ⟨y.2, y.1.1, y.1.2⟩ :=
      ⟨hxy.store, congrArg Prod.fst hxy.locals, congrArg Prod.snd hxy.locals⟩
    have hend := hstart.txn hi
    exact ⟨Prod.ext hend.sum hend.writeSetL, hend.rows⟩

/-- `prepare_cowns` and `parse_and_process`, where the row at position `i` of the index is
the cown `i`.  With `INDEXER` or `TEST_TWO` the rows are those that the pointers lead to
(`GET_COWN`), otherwise they are looked up again (`GET_ROW`). -/
def app (getCown : Bool) (rt : CownAddrs (Fin dbSize)) (stray : UInt64 → UInt64) : App When where
  prepareCowns := (YCSBTransactionMarshalled.preparer
    (lookupAddr rt (YCSBTransactionMarshalled.getRow id) stray)).prepare
  parseAndProcess := fun mem p =>
    let rows := if getCown then
      (YCSBTransactionMarshalled.takenPtrs mem p).map fun a => (rt.getCownPtrFromAddr a).val
    else (YCSBTransactionMarshalled.read mem p).indices.toList.map UInt32.toNat
    [⟨rows, (YCSBTransactionMarshalled.read mem p).writeSet⟩]

/-! ## Transactions in a file -/

namespace YCSBTransaction

variable (tx : YCSBTransaction)

def toTxn : Txn := ⟨tx.indices, tx.writeSet⟩

def toWhen : When := ⟨tx.rows, tx.writeSet⟩

/-- Row by row is all at once. -/
theorem execute_toWhen (rows : Rows) : bodies.execute tx.toWhen rows = tx.execute rows := by
  have hacts : ∀ (is : List Nat) (s : Body),
      (bodies.runActs is ((s.sum, s.writeSetL), s.rows)).2 = (is.foldl txn s).rows := by
    intro is
    induction is with
    | nil => intro s; rfl
    | cons i is ih => intro s; exact ih (txn s i)
  exact hacts tx.rows ⟨rows, 0, tx.writeSet⟩

end YCSBTransaction

/-- A file that the generator has written. -/
def file (txs : List YCSBTransaction) : List UInt8 := genLog (txs.map YCSBTransaction.toTxn)

section

variable {txs : List YCSBTransaction}

theorem file_wellFormed (hmax : txs.length < 2 ^ 32) :
    YCSBTransactionMarshalled.WellFormed (YCSBTransactionMarshalled.log (file txs))
      (file txs) := by
  refine YCSBTransactionMarshalled.genLog_wellFormed (by rwa [List.length_map]) ?_
  intro t ht key hkey
  obtain ⟨tx, -, rfl⟩ := List.mem_map.mp ht
  exact tx.below key hkey

theorem file_readCount (hmax : txs.length < 2 ^ 32) :
    (YCSBTransactionMarshalled.log (file txs)).readCount = txs.length := by
  rw [YCSBTransactionMarshalled.log, file, genLog, readCount_logFile, UInt32.toNat_ofNat',
    Nat.mod_mod, List.length_map]
  exact Nat.mod_eq_of_lt hmax

theorem file_read {k : Nat} (hk : k < txs.length) :
    YCSBTransactionMarshalled.read (file txs)
        ((YCSBTransactionMarshalled.log (file txs)).record k) =
      txs[k].toTxn.marshalled := by
  have hread := read_genLog (txs.map YCSBTransaction.toTxn) (k := k) (by rwa [List.length_map])
  rw [List.getElem_map] at hread
  exact hread

/-- Rows that are looked up by keys of the index. -/
theorem getRow_keys (rt : CownAddrs (Fin dbSize)) {ptrs : List UInt64} {keys : List UInt32}
    (hkeys : ∀ key ∈ keys, key.toNat < dbSize)
    (h : PointTo rt (YCSBTransactionMarshalled.getRow id) ptrs (keys.map UInt32.toUInt64)) :
    (ptrs.map fun a => (rt.getCownPtrFromAddr a).val) = keys.map UInt32.toNat := by
  have hcell : ∀ key ∈ keys,
      (YCSBTransactionMarshalled.getRow id key.toUInt64).map Fin.val = some key.toNat := by
    intro key hkey
    have hlt : key.toUInt64.toNat < dbSize := by
      rw [UInt32.toNat_toUInt64]
      exact hkeys key hkey
    rw [YCSBTransactionMarshalled.getRow, dif_pos hlt]
    exact congrArg some (UInt32.toNat_toUInt64 key)
  have hsome := congrArg (List.map (Option.map Fin.val)) h.rows
  rw [List.map_map, List.map_map, List.map_map] at hsome
  have hright := hsome.trans (List.map_congr_left hcell)
  apply List.map_injective_iff.mpr (Option.some_injective Nat)
  rw [List.map_map, List.map_map]
  exact hright

/-- What record `k` spawns. -/
def spawns (txs : List YCSBTransaction) (k : Nat) : List When :=
  (txs[k]?.map YCSBTransaction.toWhen).toList

/-- **A record spawns the body of its transaction**, once its pointers are resolved. -/
theorem resolves (getCown : Bool) (hmax : txs.length < 2 ^ 32) (rt : CownAddrs (Fin dbSize))
    (stray : UInt64 → UInt64) :
    System.Resolves (app getCown rt stray) (YCSBTransactionMarshalled.log (file txs)) (file txs)
      (spawns txs) := by
  intro ks hks k hk
  have hlt : k < txs.length := by
    rw [← file_readCount hmax]
    exact hks k hk
  have hagree := (file_wellFormed hmax).prepareAll rt id stray hks
  have hrows := hagree.taken k hk
  have hindices := hagree.indices k (hks k hk)
  have hws := hagree.writeSets k (hks k hk)
  rw [file_read hlt] at hrows hindices hws
  show [When.mk _ _] = _
  rw [spawns, List.getElem?_eq_getElem hlt]
  refine congrArg₂ (fun rows ws => [When.mk rows ws]) ?_ hws
  cases getCown with
  | true => exact getRow_keys rt txs[k].below hrows
  | false => exact congrArg (fun is : Vector UInt32 _ => is.toList.map UInt32.toNat) hindices

theorem flatMap_spawns (es : List (Fin txs.length)) :
    (es.map Fin.val).flatMap (spawns txs) = es.map fun e => (txs.get e).toWhen := by
  rw [List.flatMap_map]
  induction es with
  | nil => rfl
  | cons e es ih =>
    rw [List.flatMap_cons, List.map_cons, ih, spawns, List.getElem?_eq_getElem e.isLt]
    rfl

end

/-! ## The program -/

/-- How the program was built and started on a file of transactions. -/
structure Launch where
  rpcLatency : Bool
  batch : Nat
  logArr : Nat → Nat
  rt : CownAddrs (Fin dbSize)
  stray : UInt64 → UInt64
  txs : List YCSBTransaction
  enough : maxBatch ≤ txs.length
  counted : txs.length < 2 ^ 32
  rows : Rows

namespace Launch

variable (L : Launch)

def setup : Setup := ⟨L.rpcLatency, YCSBTransactionMarshalled.log (file L.txs), L.batch, L.logArr⟩

/-- The state of the program against a serial run of the transactions `es`. -/
structure Serial (es : List (Fin L.txs.length))
    (t : Threads When (UInt8 × UInt16) Nat Nat YCSBRow) : Prop where
  spawned : t.spawned = es.map fun e => (L.txs.get e).toWhen
  rows : ∀ i, (∀ j r, t.running j = some r → i ∉ (opAt t.spawned j).rows) →
    t.store i = exec YCSBTransaction.execute
      ((t.finished.filterMap fun j => es[j]?).map L.txs.get) L.rows i
  allRows : t.AllDone → t.store = exec YCSBTransaction.execute (es.map L.txs.get) L.rows

variable {L}

theorem readCount_eq (L : Launch) : L.setup.log.readCount = L.txs.length :=
  file_readCount L.counted

theorem enough_records (L : Launch) : maxBatch ≤ L.setup.log.readCount := L.readCount_eq ▸ L.enough

/-- The program, in both builds, with or without `INDEXER` or `TEST_TWO`. -/
def program (L : Launch) (getCown : Bool) :
    Program When (Threads When (UInt8 × UInt16) Nat Nat YCSBRow) Work where
  setup := L.setup
  file := file L.txs
  app := app getCown L.rt L.stray
  runtime := fun _ => Threads.machine bodies L.rows
  spawns := spawns L.txs
  AllDone := Threads.AllDone
  enough := L.enough_records
  resolves := resolves getCown L.counted L.rt L.stray
  steady := ⟨fun _ _ _ => rfl, fun _ _ _ _ _ _ _ => rfl⟩
  spawn_isSome := fun _ _ _ => rfl
  workers_finish := by
    intro calls t h
    obtain ⟨ws, u, hws, -, hall⟩ := Threads.completes h
    exact ⟨ws, u, hws, hall⟩

theorem exec_toWhen (txs : List YCSBTransaction) (rows : Rows) :
    exec bodies.execute (txs.map YCSBTransaction.toWhen) rows =
      exec YCSBTransaction.execute txs rows := by
  induction txs generalizing rows with
  | nil => rfl
  | cons tx txs ih => rw [List.map_cons, exec_cons, exec_cons, tx.execute_toWhen, ih]

/-- A run of the workers on the transactions `es`. -/
theorem serial_of_run {es : List (Fin L.txs.length)}
    {t : Threads When (UInt8 × UInt16) Nat Nat YCSBRow} {calls : List (Call When Work)}
    (h : (Threads.machine bodies L.rows).run calls = some t)
    (hsp : Call.spawned calls = es.map fun e => (L.txs.get e).toWhen) : L.Serial es t := by
  have hspawned := (Threads.spawned_eq h).trans hsp
  have hmap : t.spawned = (es.map L.txs.get).map YCSBTransaction.toWhen := by
    rw [hspawned, List.map_map]
    rfl
  refine ⟨hspawned, fun i hi => ?_, fun hall => ?_⟩
  · have hlt : ∀ j ∈ t.finished, j < es.length := by
      intro j hj
      have := List.mem_range.mp (List.mem_filter.mp hj).1
      rwa [hspawned, List.length_map] at this
    rw [Threads.store_eq h hi, hspawned, map_opAt_map _ es hlt, ← exec_toWhen, List.map_map]
    rfl
  · rw [Threads.store_eq_all h hall, hmap, exec_toWhen]

theorem le_readCount (L : Launch) (getCown : Bool) {n : Nat} (h : n ≤ L.txs.length - maxBatch) :
    n ≤ (L.program getCown).setup.log.readCount - maxBatch := by
  have hcount : (L.program getCown).setup.log.readCount = L.txs.length := L.readCount_eq
  rwa [hcount]

theorem means_serial (L : Launch) (getCown : Bool) : (L.program getCown).Means fun ks t =>
    ∀ es : List (Fin L.txs.length), es.map Fin.val = ks → L.Serial es t := by
  rintro - calls t - h hsp es rfl
  exact serial_of_run h (hsp.trans (flatMap_spawns es))

/-- The transactions at the front of the file. -/
theorem serial_take {t : Threads When (UInt8 × UInt16) Nat Nat YCSBRow} {m : Nat}
    (hm : m ≤ L.txs.length - maxBatch)
    (h : ∀ es : List (Fin L.txs.length), es.map Fin.val = List.range m → L.Serial es t) :
    t.spawned = (L.txs.take m).map YCSBTransaction.toWhen ∧
      (t.AllDone → t.store = exec YCSBTransaction.execute (L.txs.take m) L.rows) := by
  have hlt : ∀ k ∈ List.range m, k < L.txs.length := by
    intro k hk
    exact (List.mem_range.mp hk).trans_le (hm.trans (Nat.sub_le _ _))
  obtain ⟨es, hes⟩ : ∃ es : List (Fin L.txs.length), es.map Fin.val = List.range m :=
    CanLift.prf (List.range m) hlt
  have hserial := h es hes
  have hget := map_get_eq_take hes
  refine ⟨?_, fun hall => hget ▸ hserial.allRows hall⟩
  rw [← hget, List.map_map]
  exact hserial.spawned

section

variable {φ flab : Type} {getCown : Bool} {F : FrontEnd φ flab} {ok : List flab → Prop}
  {batches : List flab → List Nat} {tr : List (System.Label flab Work)}
  {s : System φ (Threads When (UInt8 × UInt16) Nat Nat YCSBRow)}

/-- The replay and the transactions that it runs. -/
theorem serial_of_replays (hr : F.Replays L.setup.log ok batches)
    (h : ((L.program getCown).system F).run tr = some s) (hok : ok (System.threads tr)) :
    ∃ es : List (Fin L.txs.length),
      F.dispatched (System.threads tr) = es.map (fun e => L.setup.log.record e.val) ∧
      es.map Fin.val <+: (L.program getCown).replay (batches (System.threads tr)) ∧
      L.Serial es s.runtime ∧
      ∃ (ws : List Work) (s' : _),
        ((L.program getCown).system F).run (tr ++ ws.map System.Label.worker) = some s' ∧
        s'.front = s.front ∧ s'.mem = s.mem ∧ s'.runtime.AllDone ∧ L.Serial es s'.runtime := by
  obtain ⟨ks, hlt, hdisp, hbegins, hserial, ws, s', hs', hfront, hmem, hall, hserial'⟩ :=
    Program.serial hr (L.means_serial getCown) h hok
  have hlt' : ∀ k ∈ ks, k < L.txs.length := fun k hk => (hlt k hk).trans_eq L.readCount_eq
  lift ks to List (Fin L.txs.length) using hlt'
  exact ⟨ks, hdisp.trans List.map_map, hbegins, hserial ks rfl, ws, s', hs', hfront, hmem, hall,
    hserial' ks rfl⟩

theorem length_spawned (hr : F.Replays L.setup.log ok batches)
    (h : ((L.program getCown).system F).run tr = some s) (hok : ok (System.threads tr)) :
    (F.dispatched (System.threads tr)).length = s.runtime.spawned.length := by
  obtain ⟨es, hdisp, -, hserial, -⟩ := serial_of_replays hr h hok
  rw [hserial.spawned, hdisp, List.length_map, List.length_map]

end

variable {tr : List (System.Label Pipeline.Label Work)}

/-- **The program runs the replay of its log**, as far as the rows show: rows that nobody is
working on are those of a serial run of the finished transactions, in the order in which
they were dispatched; and the workers alone can finish all that was dispatched. -/
theorem system_serial (L : Launch) (tr : List (System.Label Pipeline.Label Work)) {s}
    (h : (L.program true).machine.run tr = some s) (hstep : (L.program true).InStep tr) :
    ∃ es : List (Fin L.txs.length),
      Pipeline.dispatched (System.threads tr) = es.map (fun e => L.setup.log.record e.val) ∧
      es.map Fin.val <+: (L.program true).replay (Pipeline.pushedIdxPref (System.threads tr)) ∧
      L.Serial es s.runtime ∧
      ∃ (ws : List Work) (s' : _),
        (L.program true).machine.run (tr ++ ws.map System.Label.worker) = some s' ∧
        s'.front = s.front ∧ s'.mem = s.mem ∧ s'.runtime.AllDone ∧ L.Serial es s'.runtime :=
  serial_of_replays (L.program true).replays h hstep

/-- The first pass of the pipeline. -/
theorem first_pass {s} (h : (L.program true).machine.run tr = some s)
    (hreq : Pipeline.received (System.threads tr) ≤ L.txs.length - maxBatch) {m : Nat}
    (hlen : (Pipeline.dispatched (System.threads tr)).length = m) :
    m ≤ Pipeline.received (System.threads tr) ∧
      Pipeline.dispatched (System.threads tr) = (List.range m).map L.setup.log.record ∧
      s.runtime.spawned = (L.txs.take m).map YCSBTransaction.toWhen ∧
      (s.runtime.AllDone →
        s.runtime.store = exec YCSBTransaction.execute (L.txs.take m) L.rows) := by
  have hreq' := L.le_readCount true hreq
  have hk := (Pipeline.dispatched_first_pass L.enough_records (System.front_run h) hreq').1
  rw [hlen] at hk
  obtain ⟨hdisp, hserial⟩ := Program.first_pass (L.program true).replays
    (L.means_serial true) h (Program.inStep_of_received h hreq') hlen
    (Nat.le_succ_of_le (hk.trans hreq'))
  exact ⟨hk, hdisp, serial_take (hk.trans hreq) hserial⟩

/-- **One pass over the log is deterministic**: whatever the order of the steps, once the
first `k` transactions are finished they have had the effect of a serial run. -/
theorem first_pass_serial (L : Launch) (tr : List (System.Label Pipeline.Label Work)) {s}
    (h : (L.program true).machine.run tr = some s)
    (hreq : Pipeline.received (System.threads tr) ≤ L.txs.length - maxBatch) :
    ∃ k ≤ Pipeline.received (System.threads tr),
      Pipeline.dispatched (System.threads tr) = (List.range k).map L.setup.log.record ∧
      s.runtime.spawned = (L.txs.take k).map YCSBTransaction.toWhen ∧
      (s.runtime.AllDone →
        s.runtime.store = exec YCSBTransaction.execute (L.txs.take k) L.rows) := by
  obtain ⟨hk, hdisp, hspawned, hstore⟩ := first_pass h hreq rfl
  exact ⟨_, hk, hdisp, hspawned, hstore⟩

/-! ## The build without `CORE_PIPE` -/

/-- **The single-threaded dispatcher** runs the replay of its log too, whatever the handler
and the workers do meanwhile. -/
theorem file_serial (L : Launch) (prefetch testTwo : Bool)
    (tr : List (System.Label FileProgram.Label Work)) {s}
    (h : ((L.program testTwo).fileMachine prefetch).run tr = some s) :
    ∃ es : List (Fin L.txs.length),
      (L.program testTwo).fileDispatched prefetch tr =
        es.map (fun e => L.setup.log.record e.val) ∧
      es.map Fin.val <+:
        FileProgram.replay ((L.program testTwo).fileSetup prefetch) (System.threads tr) ∧
      L.Serial es s.runtime ∧
      ∃ (ws : List Work) (s' : _),
        ((L.program testTwo).fileMachine prefetch).run (tr ++ ws.map System.Label.worker) =
          some s' ∧
        s'.front = s.front ∧ s'.mem = s.mem ∧ s'.runtime.AllDone ∧ L.Serial es s'.runtime :=
  serial_of_replays ((L.program testTwo).fileReplays prefetch) h trivial

/-- **The builds agree** on the first pass over the log: if they have spawned as many
transactions and run them all, they have left the same rows. -/
theorem builds_agree (L : Launch) (prefetch testTwo : Bool)
    (tr : List (System.Label Pipeline.Label Work))
    (tr' : List (System.Label FileProgram.Label Work)) {s s'}
    (h : (L.program true).machine.run tr = some s)
    (h' : ((L.program testTwo).fileMachine prefetch).run tr' = some s')
    (hreq : Pipeline.received (System.threads tr) ≤ L.txs.length - maxBatch)
    (hlen : s'.runtime.spawned.length = s.runtime.spawned.length)
    (hall : s.runtime.AllDone) (hall' : s'.runtime.AllDone) :
    s'.runtime.store = s.runtime.store := by
  obtain ⟨hk, -, -, hstore⟩ := first_pass h hreq rfl
  have hm := hk.trans hreq
  have hsame := (length_spawned ((L.program testTwo).fileReplays prefetch) h' trivial).trans
    (hlen.trans (length_spawned (L.program true).replays h
      (Program.inStep_of_received h (L.le_readCount true hreq))).symm)
  obtain ⟨-, hserial'⟩ := Program.first_pass ((L.program testTwo).fileReplays prefetch)
    (L.means_serial testTwo) h' trivial hsame (Nat.le_succ_of_le (L.le_readCount testTwo hm))
  rw [hstore hall]
  exact (serial_take hm hserial').2 hall'

/-! ## Completion -/

/-- What there is to see when nothing is left to do. -/
theorem store_of_idle {s} (h : (L.program true).machine.run tr = some s)
    (hreq : Pipeline.received (System.threads tr) ≤ L.txs.length - maxBatch)
    (hidle : s.front.Idle) (hall : s.runtime.AllDone) :
    s.runtime.store = exec YCSBTransaction.execute
      (L.txs.take (Pipeline.received (System.threads tr))) L.rows := by
  have hdisp := hidle.length_dispatched (System.front_run h)
    ((L.program true).lt_width (L.le_readCount true hreq))
  exact (first_pass h hreq hdisp).2.2.2 hall

/-- **The first pass can always be completed.**  Whatever the threads have done, they can go
on, and then the workers, until the transactions of all requests have been run, as if one
after the other; and whenever there is nothing left to do this is so. -/
theorem first_pass_completes (L : Launch) (tr : List (System.Label Pipeline.Label Work)) {s}
    (h : (L.program true).machine.run tr = some s)
    (hreq : Pipeline.received (System.threads tr) ≤ L.txs.length - maxBatch) :
    (s.front.Idle → s.runtime.AllDone → s.runtime.store = exec YCSBTransaction.execute
      (L.txs.take (Pipeline.received (System.threads tr))) L.rows) ∧
    ∃ (ls : List Pipeline.Label) (ws : List Work) (s' : _), (∀ l ∈ ls, Pipeline.works l) ∧
      (L.program true).machine.run (tr ++ System.goOn ls ws) = some s' ∧ s'.front.Idle ∧
      s'.runtime.AllDone ∧
      s'.runtime.store = exec YCSBTransaction.execute
        (L.txs.take (Pipeline.received (System.threads tr))) L.rows := by
  refine ⟨store_of_idle h hreq, ?_⟩
  have hreq' := L.le_readCount true hreq
  obtain ⟨ls, ws, s', hworks, hs', hidle, hall, hserial⟩ :=
    Program.completes_first_pass (L.program true).replays
      (Pipeline.metered_frontEnd L.setup) (L.means_serial true) h hreq' (Program.inStep_goOn hreq')
  exact ⟨ls, ws, s', hworks, hs', hidle, hall, (serial_take hreq hserial).2 hall⟩

/-- **The build without `CORE_PIPE` can always complete its work**, also when the log is
replayed: all requests are served, by the records of the replay. -/
theorem file_completes (L : Launch) (prefetch testTwo : Bool)
    (tr : List (System.Label FileProgram.Label Work)) {s}
    (h : ((L.program testTwo).fileMachine prefetch).run tr = some s)
    (hlt : FileProgram.received (System.threads tr) < 2 ^ 64) :
    ∃ (es : List (Fin L.txs.length)) (ls : List FileProgram.Label) (ws : List Work) (s' : _),
      (∀ l ∈ ls, FileProgram.works l) ∧
      ((L.program testTwo).fileMachine prefetch).run (tr ++ System.goOn ls ws) = some s' ∧
      s'.front.Idle ∧
      es.length = FileProgram.received (System.threads tr) ∧
      es.map Fin.val =
        FileProgram.replay ((L.program testTwo).fileSetup prefetch) (System.threads tr ++ ls) ∧
      s'.runtime.AllDone ∧ L.Serial es s'.runtime := by
  obtain ⟨ks, ls, ws, s', hworks, hs', hidle, hp, hsame, hlt', hlen, hbegins, hall, hserial⟩ :=
    Program.completes ((L.program testTwo).fileReplays prefetch)
      (FileProgram.metered_frontEnd _) (L.means_serial testTwo) h hlt fun _ _ _ _ => trivial
  have hbelow : ∀ k ∈ ks, k < L.txs.length := fun k hk => (hlt' k hk).trans_eq L.readCount_eq
  lift ks to List (Fin L.txs.length) using hbelow
  have hes : ks.length = FileProgram.received (System.threads tr) :=
    (List.length_map _).symm.trans hlen
  refine ⟨ks, ls, ws, s', hworks, hs', hidle, hes, hbegins.eq_of_length_le ?_, hall,
    hserial ks rfl⟩
  rw [List.length_map, hes, Program.replay, length_visits]
  exact (FileProgram.taken_le_received hp).trans_eq hsame

end Launch

/-- Cowns are known by their positions. -/
def exampleRuntime : CownAddrs (Fin dbSize) where
  getBaseAddr := fun c => UInt64.ofNat c.val
  getCownPtrFromAddr := fun a =>
    if h : a.toNat < dbSize then ⟨a.toNat, h⟩ else ⟨0, Nat.zero_lt_succ _⟩
  from_base := by
    intro c
    have hc : (UInt64.ofNat c.val).toNat = c.val :=
      UInt64.toNat_ofNat_of_lt' (Nat.lt_trans c.isLt (by decide))
    simp only [hc, c.isLt, dif_pos]

def exampleLaunch : Launch where
  rpcLatency := true
  batch := 0
  logArr := fun _ => 0
  rt := exampleRuntime
  stray := fun _ => 0
  txs := [exampleTransaction 0 3, exampleTransaction 1 5, exampleTransaction 0 0,
    exampleTransaction 1 1, exampleTransaction 0 1]
  enough := Nat.le_succ 4
  counted := Nat.lt_of_sub_ne_zero (by decide)
  rows := exampleRows

/-- One request goes through the pipeline, and a worker begins with its first row. -/
def exampleRun : List (System.Label Pipeline.Label Work) :=
  (Pipeline.oneRequest ++ [Pipeline.Label.spawner (.dispatch 4 (some (0, 7)))]).map .thread ++
    [.worker (.start 0), .worker (.act 0)]

theorem exampleRun_runs : ∃ s, (exampleLaunch.program true).machine.run exampleRun = some s ∧
    (exampleLaunch.program true).InStep exampleRun := by
  have hrun : ∃ s, (exampleLaunch.program true).machine.run exampleRun = some s := ⟨_, rfl⟩
  obtain ⟨s, hs⟩ := hrun
  exact ⟨s, hs, Program.inStep_of_received hs (exampleLaunch.le_readCount true (by decide))⟩

theorem system_serial_example : ∃ s es,
    (exampleLaunch.program true).machine.run exampleRun = some s ∧
      exampleLaunch.Serial es s.runtime := by
  obtain ⟨s, hs, hstep⟩ := exampleRun_runs
  obtain ⟨es, -, -, hserial, -⟩ :=
    Launch.system_serial exampleLaunch exampleRun hs hstep
  exact ⟨s, es, hs, hserial⟩

theorem first_pass_serial_example : ∃ s k,
    (exampleLaunch.program true).machine.run exampleRun = some s ∧
      s.runtime.spawned = (exampleLaunch.txs.take k).map YCSBTransaction.toWhen := by
  obtain ⟨s, hs, -⟩ := exampleRun_runs
  obtain ⟨k, -, -, hspawned, -⟩ := Launch.first_pass_serial exampleLaunch exampleRun hs (by decide)
  exact ⟨s, k, hs, hspawned⟩

theorem first_pass_completes_example : ∃ tr s,
    (exampleLaunch.program true).machine.run (exampleRun ++ tr) = some s ∧ s.front.Idle ∧
      s.runtime.AllDone ∧ s.runtime.store =
        exec YCSBTransaction.execute (exampleLaunch.txs.take 1) exampleLaunch.rows := by
  obtain ⟨s, hs, -⟩ := exampleRun_runs
  obtain ⟨-, ls, ws, s', -, hs', hidle, hall, hstore⟩ :=
    Launch.first_pass_completes exampleLaunch exampleRun hs (by decide)
  exact ⟨_, s', hs', hidle, hall, hstore⟩

/-- The same request in the build without `CORE_PIPE`. -/
def exampleFileThreads : List FileProgram.Label :=
  [.handler (.store 0 7), .handler .count, .thread .wrap, .thread (.load 1 (some 1)),
    .thread (.prepare 4), .thread .exitPrepare, .thread (.prefetch 4), .thread .exitPrefetch,
    .thread (.dispatch 4 (some (0, 7)))]

theorem exampleFileThreads_run : ∃ s, ((exampleLaunch.program false).fileMachine true).run
    (exampleFileThreads.map .thread) = some s := ⟨_, rfl⟩

theorem builds_agree_example : ∃ (tr : List (System.Label Pipeline.Label Work))
    (tr' : List (System.Label FileProgram.Label Work)) (s s' : _),
    (exampleLaunch.program true).machine.run tr = some s ∧
      ((exampleLaunch.program false).fileMachine true).run tr' = some s' ∧
      s.runtime.spawned.length = 1 ∧ s'.runtime.store = s.runtime.store := by
  obtain ⟨s, hs, hstep⟩ := exampleRun_runs
  obtain ⟨es, hdisp, -, -, ws, t, ht, -, -, hall, hserial⟩ :=
    Launch.serial_of_replays (exampleLaunch.program true).replays hs hstep
  obtain ⟨s', hs'⟩ := exampleFileThreads_run
  obtain ⟨es', hdisp', -, -, ws', t', ht', -, -, hall', hserial'⟩ :=
    Launch.serial_of_replays ((exampleLaunch.program false).fileReplays true) hs' trivial
  have hone : t.runtime.spawned.length = 1 := by
    have hlen := congrArg List.length hdisp
    rw [List.length_map] at hlen
    rw [hserial.spawned, List.length_map, ← hlen]
    rfl
  have hone' : t'.runtime.spawned.length = 1 := by
    have hlen := congrArg List.length hdisp'
    rw [List.length_map] at hlen
    rw [hserial'.spawned, List.length_map, ← hlen]
    rfl
  refine ⟨_, _, t, t', ht, ht', hone, ?_⟩
  refine Launch.builds_agree exampleLaunch true false _ _ ht ht' ?_ (hone'.trans hone.symm) hall
    hall'
  rw [System.threads_append, System.threads_map_worker, List.append_nil]
  decide

theorem file_serial_example : ∃ s es, ((exampleLaunch.program false).fileMachine true).run
    (exampleFileThreads.map .thread) = some s ∧ exampleLaunch.Serial es s.runtime := by
  obtain ⟨s, hs⟩ := exampleFileThreads_run
  obtain ⟨es, -, -, hserial, -⟩ := Launch.file_serial exampleLaunch true false _ hs
  exact ⟨s, es, hs, hserial⟩

theorem file_completes_example : ∃ (es : List (Fin exampleLaunch.txs.length)) (tr s : _),
    ((exampleLaunch.program false).fileMachine true).run (exampleFileThreads.map .thread ++ tr) =
      some s ∧ es.length = 1 ∧ s.runtime.AllDone ∧ exampleLaunch.Serial es s.runtime := by
  obtain ⟨s, hs⟩ := exampleFileThreads_run
  have hlt : FileProgram.received (System.threads (exampleFileThreads.map
      (@System.Label.thread _ Work))) < 2 ^ 64 := by decide
  obtain ⟨es, ls, ws, s', -, hs', -, hlen, -, hall, hserial⟩ :=
    Launch.file_completes exampleLaunch true false _ hs hlt
  exact ⟨es, _, s', hs', hlen, hall, hserial⟩

end Doradd.Ycsb
