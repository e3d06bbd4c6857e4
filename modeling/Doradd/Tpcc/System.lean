import Doradd.Dispatcher.Program
import Doradd.Tpcc.Placement
import Doradd.Tpcc.When

/-!
# The TPC-C program as a whole

A file of transactions is mapped; the threads of the pipeline resolve the pointers of its
records, prefetch them and spawn their bodies; the workers run the bodies, which read their
parameters from the mapped file while the indexer goes on writing pointers into it.

* `steady`: what the indexer writes is nothing to the bodies;
* `tpcc_serial`: whatever the order of all these steps, the database is that of a serial
  run in the order of the replay, as long as no district takes more orders than it has
  room for;
* `tpcc_completes`: from every state of the first pass everything that was received can be
  run to its end.
-/

namespace Doradd.Tpcc

open Lib

/-- How the program was built and started on a mapped file of valid records. -/
structure Launch where
  rpcLatency : Bool
  warehouseSplit : Bool
  batch : Nat
  logArr : Nat → Nat
  sc : Scale
  draws : Draws
  rt : CownAddrs (RowId sc)
  stray : Cown → UInt64
  file : List UInt8
  enough : maxBatch ≤ (GenLog.log file).readCount
  wellFormed : TPCCTransactionMarshalled.WellFormed sc (GenLog.log file) file

namespace Launch

variable (L : Launch)

def setup : Setup := ⟨L.rpcLatency, GenLog.log L.file, L.batch, L.logArr⟩

/-- The record at an address, as it was written to the file. -/
def txm (a : Nat) : TPCCTransactionMarshalled := .read L.file a

/-- A body is run on a database, if nothing has failed before. -/
def stepWhen (mem : List UInt8) (w : When) (s : Except Fault Database) :
    Except Fault Database := s >>= fun db => w.execute L.sc mem db

/-- The workers run bodies that share a row in the order in which they were spawned, each
of them at once. -/
def runtime (mem : List UInt8) : Machine (Behaviours When (Except Fault Database))
    (Call When Nat) :=
  Behaviours.machine (L.stepWhen mem) When.Conflict (generate L.sc L.draws)

/-- The transactions of the records `es`. -/
def txms (es : List Nat) : List TPCCTransactionMarshalled :=
  es.map fun k => L.txm (L.setup.log.record k)

/-- What record `k` spawns. -/
def spawns (k : Nat) : List When :=
  (spawn L.warehouseSplit (L.txm (L.setup.log.record k))).map
    (Behaviour.toWhen (L.setup.log.record k))

/-- With the records at these addresses, no district has taken more orders than there is
room for. -/
def WithinCapacity (dispatched : List Nat) : Prop :=
  ∀ D : DistrictId L.sc, (dispatched.map L.txm).countP D.receives ≤ maxOrderTransactions.toNat

/-- The behaviours that are done, in the order in which they were spawned. -/
def finished (t : Behaviours When (Except Fault Database)) : List Behaviour :=
  t.finished.map fun i => (opAt t.spawned i).toBehaviour L.file

variable {L}

/-! ## Records -/

section

variable {k : Nat} {w : When}

theorem good_of_spawns (hw : w ∈ L.spawns k) {mem : List UInt8}
    (hread : TPCCTransactionMarshalled.read mem (L.setup.log.record k) =
      L.txm (L.setup.log.record k)) : w.Good L.sc mem := by
  obtain ⟨b, hb, rfl⟩ := List.mem_map.mp hw
  exact toWhen_good L.sc _ hb hread

theorem toBehaviour_spawns {mem : List UInt8}
    (hread : TPCCTransactionMarshalled.read mem (L.setup.log.record k) =
      L.txm (L.setup.log.record k)) :
    (L.spawns k).map (When.toBehaviour mem) =
      spawn L.warehouseSplit (L.txm (L.setup.log.record k)) := by
  rw [spawns, List.map_map]
  refine (List.map_congr_left fun b hb => ?_).trans (List.map_id _)
  have htxm : b.txm = L.txm (L.setup.log.record k) := by
    rcases spawn_cases hb with ⟨-, -, rfl | ⟨ww, rfl⟩⟩ | ⟨-, rfl | ⟨ww, rfl⟩⟩ <;> rfl
  exact toBehaviour_toWhen (hread.trans htxm.symm)

theorem toBehaviour_congr (hw : w ∈ L.spawns k) {mem : List UInt8}
    (hread : TPCCTransactionMarshalled.read mem (L.setup.log.record k) =
      L.txm (L.setup.log.record k)) : w.toBehaviour mem = w.toBehaviour L.file := by
  obtain ⟨b, hb, rfl⟩ := List.mem_map.mp hw
  have haddr : (b.toWhen (L.setup.log.record k)).txm = L.setup.log.record k := by cases b <;> rfl
  rw [When.toBehaviour, When.toBehaviour, haddr, hread]
  rfl

end

/-- What was written to the file is still there after any records have been prepared. -/
theorem agree {mem : List UInt8} (h : System.Prepared (app L.rt L.stray L.warehouseSplit)
    L.setup.log L.file mem) : ∃ ks : List Nat,
      TPCCTransactionMarshalled.PointersAgree L.sc L.rt (RowId.of L.sc) L.setup.log ks L.file
        mem := by
  obtain ⟨ks, hks, rfl⟩ := h
  exact ⟨ks, L.wellFormed.prepareAll L.rt (RowId.of L.sc) L.stray hks⟩

/-- **A record spawns the bodies of its transaction**, once its pointers are resolved. -/
theorem resolves (L : Launch) : System.Resolves (app L.rt L.stray L.warehouseSplit)
    L.setup.log L.file L.spawns := by
  intro ks hks k hk
  have hagree := L.wellFormed.prepareAll L.rt (RowId.of L.sc) L.stray hks
  exact parseAndProcess_eq L.sc _ L.warehouseSplit (hagree.fields k (hks k hk))
    (rows_eq L.sc (L.wellFormed.valid k (hks k hk)) (hagree.taken k hk))

/-- **What the indexer writes is nothing to the bodies.** -/
theorem steady (L : Launch) : System.Steady L.runtime L.file
    (System.OfLog L.setup.log L.spawns)
    (System.Prepared (app L.rt L.stray L.warehouseSplit) L.setup.log L.file) where
  spawn := fun mem => Behaviours.step_spawn_congr _ _ (L.stepWhen mem) _
  work := by
    intro mem calls t i hmem hcalls hgood
    obtain ⟨ks, hagree⟩ := agree hmem
    refine Behaviours.step_work_congr _ _ fun hat => ?_
    rw [Behaviours.spawned_eq hcalls] at hat
    obtain ⟨k, hk, hw⟩ := hgood _ hat
    rw [← Behaviours.spawned_eq hcalls] at hw
    have hread := hagree.fields k hk
    refine congrArg (t.state >>= ·) (funext fun db => ?_)
    rw [(good_of_spawns hw hread).execute db, (good_of_spawns hw rfl).execute db,
      toBehaviour_congr hw hread]

theorem conflict_symm (w w' : When) (h : When.Conflict w w') : When.Conflict w' w := by
  obtain ⟨a, ha, ha'⟩ := h
  exact ⟨a, ha', ha⟩

/-- The program, in both builds. -/
def program (L : Launch) : Program When (Behaviours When (Except Fault Database)) Nat where
  setup := L.setup
  file := L.file
  app := app L.rt L.stray L.warehouseSplit
  runtime := L.runtime
  spawns := L.spawns
  AllDone := Behaviours.AllDone
  enough := L.enough
  resolves := L.resolves
  steady := L.steady
  spawn_isSome := fun _ _ _ => rfl
  workers_finish := by
    intro calls t h
    obtain ⟨ws, u, hws, -, hall⟩ := (Behaviours.run_inv conflict_symm h).completes conflict_symm
    exact ⟨ws, u, hws, hall⟩

/-! ## Runs -/

/-- The state of the program against a serial run of the records `es`. -/
structure Serial (L : Launch) (es : List Nat) (t : Behaviours When (Except Fault Database)) :
    Prop where
  spawned : t.spawned = es.flatMap L.spawns
  valid : ∀ b ∈ L.finished t, b.Valid L.sc
  room : ∀ D : DistrictId L.sc, (L.finished t).countP D.orders ≤ maxOrderTransactions.toNat
  state : ∃ db db', generate L.sc L.draws = .ok db ∧ t.state = .ok db' ∧
    runBehaviours L.sc (L.finished t) db = .ok db'
  allDone : t.AllDone → L.finished t =
    Tpcc.spawned L.warehouseSplit (L.txms es)

theorem stepWhen_eq {w : When} (hw : w.Good L.sc L.file) :
    L.stepWhen L.file w = stepBehaviour L.sc (w.toBehaviour L.file) :=
  funext fun s => congrArg (s >>= ·) (funext hw.execute)

theorem commutes_whens (L : Launch) : Commutes (L.stepWhen L.file) When.Conflict fun s ws =>
    (∀ w ∈ ws, w.Good L.sc L.file) ∧
      ∃ db, s = .ok db ∧ Ready L.sc db (ws.map (When.toBehaviour L.file)) := by
  refine (commutes L.sc).comap (fun w hw => stepWhen_eq hw) ?_
  rintro w w' hw hw' ⟨a, ha, ha'⟩
  rw [← hw.cowns] at ha
  rw [← hw'.cowns] at ha'
  exact ⟨a, ha, ha'⟩

theorem map_toBehaviour (L : Launch) (es : List Nat) :
    (es.flatMap L.spawns).map (When.toBehaviour L.file) =
      Tpcc.spawned L.warehouseSplit (L.txms es) := by
  rw [List.map_flatMap, Tpcc.spawned, txms, List.flatMap_map]
  exact List.flatMap_congr fun k _ => toBehaviour_spawns rfl

/-- What is done is what was spawned, with gaps. -/
theorem finished_sublist {es : List Nat} {t : Behaviours When (Except Fault Database)}
    (h : t.spawned = es.flatMap L.spawns) :
    (L.finished t).Sublist (Tpcc.spawned L.warehouseSplit (L.txms es)) := by
  have hsub := t.finished_sublist.map (When.toBehaviour L.file)
  rw [h, map_toBehaviour, List.map_map] at hsub
  rwa [finished, h]

theorem valid_txms {es : List Nat} (hes : ∀ k ∈ es, k < L.setup.log.readCount) :
    ∀ txm ∈ L.txms es, txm.Valid L.sc := by
  intro txm htxm
  obtain ⟨k, hk, rfl⟩ := List.mem_map.mp htxm
  exact L.wellFormed.valid k (hes k hk)

/-- A run of the workers on the records `es`. -/
theorem serial_of_run {es : List Nat} {t : Behaviours When (Except Fault Database)}
    {calls : List (Call When Nat)} (h : (L.runtime L.file).run calls = some t)
    (hsp : Call.spawned calls = es.flatMap L.spawns) (hes : ∀ k ∈ es, k < L.setup.log.readCount)
    (hcap : ∀ D : DistrictId L.sc, (L.txms es).countP D.receives ≤ maxOrderTransactions.toNat) :
    L.Serial es t := by
  have hinv := Behaviours.run_inv conflict_symm h
  have hspawned := (Behaviours.spawned_eq h).trans hsp
  have hsub := t.finished_sublist
  have hgood : ∀ w ∈ t.finished.map (opAt t.spawned), w.Good L.sc L.file := by
    intro w hw
    have hmem := hsub.subset hw
    rw [hspawned] at hmem
    obtain ⟨k, hk, hw⟩ := List.mem_flatMap.mp hmem
    exact good_of_spawns hw rfl
  have hfinished : (t.finished.map (opAt t.spawned)).map (When.toBehaviour L.file) =
      L.finished t := List.map_map
  have hsub' := finished_sublist hspawned
  have hvalid := valid_txms hes
  have hvalid' : ∀ b ∈ L.finished t, b.Valid L.sc :=
    fun b hb => spawned_valid hvalid b (hsub'.subset hb)
  have hroom : ∀ D : DistrictId L.sc,
      (L.finished t).countP D.orders ≤ maxOrderTransactions.toNat := by
    intro D
    have hle := hsub'.countP_le (p := D.orders)
    rw [countP_orders_spawned hvalid] at hle
    exact Nat.le_trans hle (hcap D)
  obtain ⟨db, hdb, hg⟩ := generate_ok L.sc L.draws
  have hready : Ready L.sc db (L.finished t) := hg.ready hvalid' hroom
  obtain ⟨db', hrun⟩ := hready.run
  refine ⟨hspawned, hvalid', hroom, ⟨db, db', hdb, ?_, hrun⟩, fun hall => ?_⟩
  · rw [hinv.state_eq L.commutes_whens ⟨hgood, db, hdb, by rwa [hfinished]⟩,
      exec_comap (fun w hw => stepWhen_eq hw) hgood, hfinished, hdb]
    exact (exec_stepBehaviour _ db).trans hrun
  · rw [← hfinished, Behaviours.map_finished_of_allDone hall, hspawned, map_toBehaviour]

/-- What a run of the workers leads to, as long as the districts have room. -/
theorem means_serial (L : Launch) : L.program.Means fun es t =>
    L.WithinCapacity (es.map L.setup.log.record) →
      (∀ txm ∈ L.txms es, txm.Valid L.sc) ∧ L.Serial es t := by
  intro es calls t hes h hsp hcap
  refine ⟨valid_txms hes, serial_of_run h hsp hes fun D => ?_⟩
  have hD := hcap D
  rwa [List.map_map] at hD

/-- The replay and the serial run of its records, within the capacity. -/
theorem serial_of_replays {φ flab : Type} {F : FrontEnd φ flab} {ok : List flab → Prop}
    {batches : List flab → List Nat} {tr : List (System.Label flab Nat)}
    {s : System φ (Behaviours When (Except Fault Database))}
    (hr : F.Replays L.setup.log ok batches) (h : (L.program.system F).run tr = some s)
    (hok : ok (System.threads tr)) (hcap : L.WithinCapacity (F.dispatched (System.threads tr))) :
    ∃ es : List Nat, (∀ txm ∈ L.txms es, txm.Valid L.sc) ∧
      F.dispatched (System.threads tr) = es.map L.setup.log.record ∧
      es <+: L.program.replay (batches (System.threads tr)) ∧ L.Serial es s.runtime ∧
      ∃ (ws : List Nat) (s' : _),
        (L.program.system F).run (tr ++ ws.map System.Label.worker) = some s' ∧
        s'.front = s.front ∧ s'.mem = s.mem ∧ s'.runtime.AllDone ∧ L.Serial es s'.runtime := by
  obtain ⟨es, -, hdisp, hbegins, hserial, ws, s', hs', hfront, hmem, hall, hserial'⟩ :=
    Program.serial hr L.means_serial h hok
  rw [hdisp] at hcap
  obtain ⟨hvalid, hserial⟩ := hserial hcap
  exact ⟨es, hvalid, hdisp, hbegins, hserial, ws, s', hs', hfront, hmem, hall, (hserial' hcap).2⟩

variable {tr : List (System.Label Pipeline.Label Nat)}

/-- The state of a run of the pipeline, for what follows from it. -/
theorem exists_serial {s} (h : L.program.machine.run tr = some s) (hstep : L.program.InStep tr)
    (hcap : L.WithinCapacity (Pipeline.dispatched (System.threads tr))) : ∃ es : List Nat,
      Pipeline.dispatched (System.threads tr) = es.map L.setup.log.record ∧
      (∀ txm ∈ L.txms es, txm.Valid L.sc) ∧ L.Serial es s.runtime := by
  obtain ⟨es, hvalid, hdisp, -, hserial, -⟩ := serial_of_replays L.program.replays h hstep hcap
  exact ⟨es, hdisp, hvalid, hserial⟩

/-- **The program runs the replay of its log.**  The database is always that of a serial run
of the bodies that are done, in the order in which they were spawned; none of them fails;
and the workers alone can finish all that was dispatched. -/
theorem tpcc_serial (L : Launch) (tr : List (System.Label Pipeline.Label Nat)) {s}
    (h : L.program.machine.run tr = some s) (hstep : L.program.InStep tr)
    (hcap : L.WithinCapacity (Pipeline.dispatched (System.threads tr))) :
    ∃ es : List Nat,
      Pipeline.dispatched (System.threads tr) = es.map L.setup.log.record ∧
      es <+: L.program.replay (Pipeline.pushedIdxPref (System.threads tr)) ∧
      L.Serial es s.runtime ∧
      ∃ (ws : List Nat) (s' : _),
        L.program.machine.run (tr ++ ws.map System.Label.worker) = some s' ∧
        s'.front = s.front ∧ s'.mem = s.mem ∧ s'.runtime.AllDone ∧
        L.Serial es s'.runtime := by
  obtain ⟨es, -, hserial⟩ := serial_of_replays L.program.replays h hstep hcap
  exact ⟨es, hserial⟩

/-! ## The build without `CORE_PIPE` -/

/-- **The single-threaded dispatcher** runs the replay of its log too, whatever the handler
and the workers do meanwhile. -/
theorem tpcc_file_serial (L : Launch) (prefetch : Bool)
    (tr : List (System.Label FileProgram.Label Nat)) {s}
    (h : (L.program.fileMachine prefetch).run tr = some s)
    (hcap : L.WithinCapacity (L.program.fileDispatched prefetch tr)) : ∃ es : List Nat,
      L.program.fileDispatched prefetch tr = es.map L.setup.log.record ∧
      es <+: FileProgram.replay (L.program.fileSetup prefetch) (System.threads tr) ∧
      L.Serial es s.runtime ∧
      ∃ (ws : List Nat) (s' : _),
        (L.program.fileMachine prefetch).run (tr ++ ws.map System.Label.worker) = some s' ∧
        s'.front = s.front ∧ s'.mem = s.mem ∧ s'.runtime.AllDone ∧ L.Serial es s'.runtime := by
  obtain ⟨es, -, hserial⟩ := serial_of_replays (L.program.fileReplays prefetch) h trivial hcap
  exact ⟨es, hserial⟩

/-- Two states that are serial in the same records. -/
theorem Serial.state_eq {es : List Nat} {t t' : Behaviours When (Except Fault Database)}
    (h : L.Serial es t) (h' : L.Serial es t') (hall : t.AllDone) (hall' : t'.AllDone) :
    t'.state = t.state := by
  obtain ⟨db, db₁, hgen, hstate, hrun⟩ := h.state
  obtain ⟨db', db₁', hgen', hstate', hrun'⟩ := h'.state
  obtain rfl := Except.ok.inj (hgen'.symm.trans hgen)
  rw [h.allDone hall] at hrun
  rw [h'.allDone hall'] at hrun'
  rw [hstate, hstate', ← hrun, ← hrun']

/-- **The builds agree** on the first pass over the log: if they have dispatched as many
transactions and run them all, they have left the same database. -/
theorem tpcc_builds_agree (L : Launch) (prefetch : Bool)
    (tr : List (System.Label Pipeline.Label Nat))
    (tr' : List (System.Label FileProgram.Label Nat)) {s s'} (h : L.program.machine.run tr = some s)
    (h' : (L.program.fileMachine prefetch).run tr' = some s')
    (hreq : Pipeline.received (System.threads tr) ≤ L.setup.log.readCount - maxBatch)
    (hlen : (L.program.fileDispatched prefetch tr').length =
      (Pipeline.dispatched (System.threads tr)).length)
    (hcap : L.WithinCapacity (Pipeline.dispatched (System.threads tr)))
    (hall : s.runtime.AllDone) (hall' : s'.runtime.AllDone) :
    s'.runtime.state = s.runtime.state := by
  obtain ⟨es, hdisp, hserial, hserial'⟩ :=
    Program.builds_first_pass L.means_serial h h' hreq hlen
  rw [hdisp] at hcap
  exact (hserial hcap).2.state_eq (hserial' hcap).2 hall hall'

/-! ## Completion -/

/-- **The first pass can always be completed.**  Whatever the threads have done, they can go
on, and then the workers, until the transactions of all requests have been run, as if one
after the other. -/
theorem tpcc_completes (L : Launch) (tr : List (System.Label Pipeline.Label Nat)) {s}
    (h : L.program.machine.run tr = some s)
    (hreq : Pipeline.received (System.threads tr) ≤ L.setup.log.readCount - maxBatch)
    (hcap : L.WithinCapacity
      ((List.range (Pipeline.received (System.threads tr))).map L.setup.log.record)) :
    ∃ (ls : List Pipeline.Label) (ws : List Nat) (s' : _), (∀ l ∈ ls, Pipeline.works l) ∧
      L.program.machine.run (tr ++ System.goOn ls ws) = some s' ∧ s'.front.Idle ∧
      s'.runtime.AllDone ∧
      L.Serial (List.range (Pipeline.received (System.threads tr))) s'.runtime := by
  obtain ⟨ls, ws, s', hworks, hs', hidle, hall, hserial⟩ :=
    Program.completes_first_pass L.program.replays (Pipeline.metered_frontEnd L.setup)
      L.means_serial h hreq (Program.inStep_goOn hreq)
  exact ⟨ls, ws, s', hworks, hs', hidle, hall, (hserial hcap).2⟩

/-- **So can the build without `CORE_PIPE`.** -/
theorem tpcc_file_completes (L : Launch) (prefetch : Bool)
    (tr : List (System.Label FileProgram.Label Nat)) {s}
    (h : (L.program.fileMachine prefetch).run tr = some s)
    (hreq : FileProgram.received (System.threads tr) ≤ L.setup.log.readCount - maxBatch)
    (hcap : L.WithinCapacity
      ((List.range (FileProgram.received (System.threads tr))).map L.setup.log.record)) :
    ∃ (ls : List FileProgram.Label) (ws : List Nat) (s' : _), (∀ l ∈ ls, FileProgram.works l) ∧
      (L.program.fileMachine prefetch).run (tr ++ System.goOn ls ws) = some s' ∧ s'.front.Idle ∧
      s'.runtime.AllDone ∧
      L.Serial (List.range (FileProgram.received (System.threads tr))) s'.runtime := by
  obtain ⟨ls, ws, s', hworks, hs', hidle, hall, hserial⟩ :=
    Program.completes_first_pass (L.program.fileReplays prefetch)
      (FileProgram.metered_frontEnd (L.program.fileSetup prefetch)) L.means_serial h hreq
      fun _ _ _ _ => trivial
  exact ⟨ls, ws, s', hworks, hs', hidle, hall, (hserial hcap).2⟩

end Launch

/-! ## One NewOrder -/

def TableId.all : List TableId :=
  [.warehouse, .district, .customer, .orderLine, .stock, .order, .newOrder, .item, .history]

/-- Rows are known by their keys and tables. -/
def RowId.addrs (sc : Scale) : CownAddrs (RowId sc) where
  getBaseAddr := fun c => UInt64.ofNat (9 * c.val.2.toNat + TableId.all.idxOf c.val.1)
  getCownPtrFromAddr := fun a =>
    RowId.of sc ((TableId.all[a.toNat % 9]?).getD .item, UInt64.ofNat (a.toNat / 9))
  from_base := by
    rintro ⟨⟨t, key⟩, hc⟩
    have hkey : key.toNat < 2 ^ 60 := by
      have hlt := UInt64.lt_iff_toNat_lt.mp hc
      rw [tsize_toNat] at hlt
      exact Nat.lt_trans hlt (Nat.lt_trans (capacity_lt sc t) (by decide))
    have ht : TableId.all.idxOf t < 9 := by cases t <;> decide
    have hget : TableId.all[TableId.all.idxOf t]? = some t := by cases t <;> rfl
    have hval : (UInt64.ofNat (9 * key.toNat + TableId.all.idxOf t)).toNat =
        9 * key.toNat + TableId.all.idxOf t :=
      UInt64.toNat_ofNat_of_lt' (by simp only [UInt64.size]; omega)
    have hmod : (9 * key.toNat + TableId.all.idxOf t) % 9 = TableId.all.idxOf t := by omega
    have hdiv : (9 * key.toNat + TableId.all.idxOf t) / 9 = key.toNat := by omega
    simp only [hval, hmod, hdiv, hget, Option.getD_some, UInt64.ofNat_toNat]
    exact dif_pos hc

def exampleRecords : List (Nat × GenLog.Params) :=
  (0, GenLog.exampleOrder) :: List.replicate 4 (1, GenLog.examplePaid)

def exampleMapped : List UInt8 :=
  logFile exampleRecords.length (fun t => GenLog.structBytes t.1 t.2) exampleRecords

theorem exampleRecords_fits : ∀ t ∈ exampleRecords, t.2.Fits t.1 := by
  intro t ht
  rcases List.mem_cons.mp ht with rfl | ht
  · exact GenLog.exampleOrder_fits
  · rw [List.eq_of_mem_replicate ht]
    exact GenLog.examplePaid_fits

theorem exampleMapped_eq : GenLog.genLog exampleRecords = some exampleMapped :=
  (GenLog.genLog_eq_some exampleRecords_fits).mpr ⟨by decide, rfl⟩

theorem exampleMapped_readCount : (GenLog.log exampleMapped).readCount = 5 :=
  (GenLog.genLog_records exampleRecords_fits exampleMapped_eq).1

theorem exampleMapped_wellFormed : TPCCTransactionMarshalled.WellFormed Scale.one
    (GenLog.log exampleMapped) exampleMapped := by
  have hw : GenLog.exampleScale.warehouses ≤ Scale.one.numWarehouses.toNat := by decide
  have horder : GenLog.exampleOrder.NewOrder GenLog.exampleScale 1700000000 :=
    GenLog.ensures_newOrder _ _ _ _ _ _ GenLog.exampleOrder_drawn
  have hpaid : GenLog.examplePaid.Payment GenLog.exampleScale 1700000000 :=
    GenLog.ensures_payment _ _ _ _ _ _ GenLog.examplePaid_drawn
  have hdrawn : ∀ t ∈ exampleRecords, t.1 = 0 ∧ t.2.NewOrder GenLog.exampleScale 1700000000 ∨
      t.1 = 1 ∧ t.2.Payment GenLog.exampleScale 1700000000 := by
    intro t ht
    rcases List.mem_cons.mp ht with rfl | ht
    · exact Or.inl ⟨rfl, horder⟩
    · rw [List.eq_of_mem_replicate ht]
      exact Or.inr ⟨rfl, hpaid⟩
  exact TPCCTransactionMarshalled.genLog_wellFormed hw exampleRecords_fits hdrawn exampleMapped_eq

def exampleLaunch : Launch where
  rpcLatency := true
  warehouseSplit := true
  batch := 0
  logArr := fun _ => 0
  sc := Scale.one
  draws := exampleDraws
  rt := RowId.addrs Scale.one
  stray := fun _ => 0
  file := exampleMapped
  enough := exampleMapped_readCount.symm ▸ Nat.le_succ 4
  wellFormed := exampleMapped_wellFormed

/-- One request goes through the pipeline. -/
def exampleThreads : List Pipeline.Label :=
  Pipeline.oneRequest ++ [.spawner (.dispatch 4 (some (0, 7)))]

theorem exampleThreads_run : ∃ s,
    exampleLaunch.program.machine.run (exampleThreads.map .thread) = some s ∧
      exampleLaunch.program.InStep (exampleThreads.map .thread) := by
  have hpipe : ∃ p, (Pipeline.machine exampleLaunch.setup).run exampleThreads = some p := ⟨_, rfl⟩
  obtain ⟨p, hp⟩ := hpipe
  obtain ⟨s, hs⟩ := exampleLaunch.program.exists_run (F := Pipeline.frontEnd _) hp
  refine ⟨s, hs, Program.inStep_of_received hs ?_⟩
  rw [System.threads_map_thread]
  have hcount : exampleLaunch.program.setup.log.readCount = 5 := exampleMapped_readCount
  rw [hcount]
  decide

theorem exampleThreads_room : exampleLaunch.WithinCapacity
    (Pipeline.dispatched (System.threads (exampleThreads.map (@System.Label.thread _ Nat)))) := by
  intro D
  refine Nat.le_trans List.countP_le_length ?_
  rw [List.length_map, System.threads_map_thread]
  decide

/-- The order is dispatched; then it can be run. -/
theorem tpcc_serial_example : ∃ (es ws : List Nat) (s : _),
    es.map exampleLaunch.setup.log.record = [4] ∧
      exampleLaunch.program.machine.run (exampleThreads.map .thread ++ ws.map .worker) = some s ∧
      s.runtime.AllDone ∧ exampleLaunch.Serial es s.runtime := by
  obtain ⟨s, hs, hstep⟩ := exampleThreads_run
  obtain ⟨es, hdisp, -, -, ws, t, ht, -, -, hall, hserial⟩ :=
    Launch.tpcc_serial exampleLaunch _ hs hstep exampleThreads_room
  rw [System.threads_map_thread] at hdisp
  exact ⟨es, ws, t, hdisp.symm, ht, hall, hserial⟩

theorem exampleLaunch_room {n : Nat} (hn : n ≤ 3840) :
    exampleLaunch.WithinCapacity ((List.range n).map exampleLaunch.setup.log.record) := by
  intro D
  refine Nat.le_trans List.countP_le_length ?_
  rw [List.length_map, List.length_map, List.length_range, maxOrderTransactions_toNat]
  exact hn

theorem tpcc_completes_example : ∃ tr s,
    exampleLaunch.program.machine.run (exampleThreads.map .thread ++ tr) = some s ∧ s.front.Idle ∧
      s.runtime.AllDone ∧ exampleLaunch.Serial [0] s.runtime := by
  obtain ⟨s, hs, -⟩ := exampleThreads_run
  have hone : Pipeline.received (System.threads (exampleThreads.map
      (@System.Label.thread _ Nat))) = 1 := by
    rw [System.threads_map_thread]
    rfl
  have hcount : exampleLaunch.setup.log.readCount = 5 := exampleMapped_readCount
  obtain ⟨ls, ws, s', -, hs', hidle, hall, hserial⟩ :=
    Launch.tpcc_completes exampleLaunch _ hs (by rw [hone, hcount]; decide)
      (by rw [hone]; exact exampleLaunch_room (by decide))
  rw [hone] at hserial
  exact ⟨_, s', hs', hidle, hall, hserial⟩

/-- The same request in the build without `CORE_PIPE`. -/
def exampleFileThreads : List FileProgram.Label :=
  [.handler (.store 0 7), .handler .count, .thread .wrap, .thread (.load 1 (some 1)),
    .thread (.prepare 4), .thread .exitPrepare, .thread (.prefetch 4), .thread .exitPrefetch,
    .thread (.dispatch 4 (some (0, 7)))]

theorem exampleFileThreads_run : ∃ s, (exampleLaunch.program.fileMachine true).run
    (exampleFileThreads.map .thread) = some s := by
  have hfile : ∃ p, (FileProgram.machine (exampleLaunch.program.fileSetup true)).run
      exampleFileThreads = some p := ⟨_, rfl⟩
  obtain ⟨p, hp⟩ := hfile
  exact exampleLaunch.program.exists_run (F := FileProgram.frontEnd _) hp

theorem exampleFileThreads_room : exampleLaunch.WithinCapacity
    (exampleLaunch.program.fileDispatched true (exampleFileThreads.map .thread)) := by
  intro D
  refine Nat.le_trans List.countP_le_length ?_
  rw [List.length_map, Program.fileDispatched, System.threads_map_thread]
  decide

theorem tpcc_file_serial_example : ∃ s es, (exampleLaunch.program.fileMachine true).run
    (exampleFileThreads.map .thread) = some s ∧ exampleLaunch.Serial es s.runtime := by
  obtain ⟨s, hs⟩ := exampleFileThreads_run
  obtain ⟨es, -, -, hserial, -⟩ :=
    Launch.tpcc_file_serial exampleLaunch true _ hs exampleFileThreads_room
  exact ⟨s, es, hs, hserial⟩

theorem tpcc_file_completes_example : ∃ tr s,
    (exampleLaunch.program.fileMachine true).run (exampleFileThreads.map .thread ++ tr) = some s ∧
      s.front.Idle ∧ s.runtime.AllDone ∧ exampleLaunch.Serial [0] s.runtime := by
  obtain ⟨s, hs⟩ := exampleFileThreads_run
  have hone : FileProgram.received (System.threads (exampleFileThreads.map
      (@System.Label.thread _ Nat))) = 1 := by
    rw [System.threads_map_thread]
    rfl
  have hcount : exampleLaunch.setup.log.readCount = 5 := exampleMapped_readCount
  obtain ⟨ls, ws, s', -, hs', hidle, hall, hserial⟩ :=
    Launch.tpcc_file_completes exampleLaunch true _ hs (by rw [hone, hcount]; decide)
      (by rw [hone]; exact exampleLaunch_room (by decide))
  rw [hone] at hserial
  exact ⟨_, s', hs', hidle, hall, hserial⟩

theorem tpcc_builds_agree_example : ∃ (tr : List (System.Label Pipeline.Label Nat))
    (tr' : List (System.Label FileProgram.Label Nat)) (s s' : _),
    exampleLaunch.program.machine.run tr = some s ∧
      (exampleLaunch.program.fileMachine true).run tr' = some s' ∧
      Pipeline.dispatched (System.threads tr) = [4] ∧ s'.runtime.state = s.runtime.state := by
  obtain ⟨s, hs, hstep⟩ := exampleThreads_run
  obtain ⟨-, -, -, -, -, ws, t, ht, -, -, hall, -⟩ :=
    Program.serial exampleLaunch.program.replays exampleLaunch.means_serial hs hstep
  obtain ⟨s', hs'⟩ := exampleFileThreads_run
  obtain ⟨-, -, -, -, -, ws', t', ht', -, -, hall', -⟩ :=
    Program.serial (exampleLaunch.program.fileReplays true) exampleLaunch.means_serial hs' trivial
  have hthreads : System.threads (exampleThreads.map .thread ++ ws.map (.worker)) =
      exampleThreads := by
    rw [System.threads_append, System.threads_map_thread, System.threads_map_worker,
      List.append_nil]
  have hthreads' : System.threads (exampleFileThreads.map .thread ++ ws'.map (.worker)) =
      exampleFileThreads := by
    rw [System.threads_append, System.threads_map_thread, System.threads_map_worker,
      List.append_nil]
  have hroom := exampleThreads_room
  rw [System.threads_map_thread] at hroom
  have hcount : exampleLaunch.setup.log.readCount = 5 := exampleMapped_readCount
  refine ⟨_, _, t, t', ht, ht', ?_, ?_⟩
  · rw [hthreads]
    rfl
  refine Launch.tpcc_builds_agree exampleLaunch true _ _ ht ht' ?_ ?_ ?_ hall hall'
  · rw [hthreads, hcount]
    decide
  · rw [Program.fileDispatched, hthreads, hthreads']
    rfl
  · rw [hthreads]
    exact hroom

end Doradd.Tpcc
