import Doradd.Dispatcher.Program
import Doradd.Chain.Generator

/-!
# The chain program as a whole

The bodies of a chain only spin and count themselves.  What there is to see of a run is
which transactions every row was handed to, in which order, and the counter.

* `chain_in_order`: a row is handed to the transactions of the log that name it, one by one
  in the order of the replay, and no transaction is left out or run twice;
* `chain_builds_agree`: on the first pass both builds hand a row to the same transactions.
-/

namespace Doradd.Chain

open Lib

/-- The log of a file. -/
def log (T : TxnType) (mem : List UInt8) : Log :=
  Log.ofFile T.marshalledSize T.marshalledSize_pos mem

/-- What the program was built for, and how it was started on a mapped file. -/
structure Launch where
  txnType : TxnType
  rpcLatency : Bool
  batch : Nat
  logArr : Nat → Nat
  rt : CownAddrs (Row txnType)
  stray : TableId × UInt64 → UInt64
  file : List UInt8
  enough : maxBatch ≤ (log txnType file).readCount
  wellFormed : WellFormed txnType (log txnType file) file

/-- The behaviours that acquired a row, in the order in which they were run. -/
def visitors {T : TxnType} (t : Behaviours (When T) Nat) (r : Row T) : List (When T) :=
  (t.done.map (opAt t.spawned)).filter fun w => r ∈ w.rows

namespace Launch

variable (L : Launch)

def setup : Setup := ⟨L.rpcLatency, log L.txnType L.file, L.batch, L.logArr⟩

/-- A body counts itself when it has spun for its time. -/
def runtime : Machine (Behaviours (When L.txnType) Nat) (Call (When L.txnType) Nat) :=
  Behaviours.machine (fun _ txCnt => txCnt + 1) When.Conflict 0

/-- What record `k` spawns. -/
def spawns (k : Nat) : List (When L.txnType) :=
  Chain.spawns L.txnType L.file (L.setup.log.record k)

/-- The records `es` that name a row. -/
def naming (es : List Nat) (r : Row L.txnType) : List (When L.txnType) :=
  (es.flatMap L.spawns).filter fun w => r ∈ w.rows

/-- How many rows record `k` names. -/
def count (k : Nat) : Nat := taken L.txnType L.file (L.setup.log.record k)

/-- The state of the program against the records `es`. -/
structure InOrder (L : Launch) (es : List Nat) (t : Behaviours (When L.txnType) Nat) : Prop where
  spawned : t.spawned = es.flatMap L.spawns
  once : t.done.Nodup
  counter : t.state = t.done.length
  rows : ∀ r, visitors t r <+: L.naming es r
  complete : t.AllDone → t.state = es.countP (fun k => 0 < L.count k) ∧
    ∀ r, visitors t r = L.naming es r

variable {L}

theorem conflict_symm {T : TxnType} (w w' : When T) (h : w.Conflict w') : w'.Conflict w := by
  obtain ⟨a, ha, ha'⟩ := h
  exact ⟨a, ha', ha⟩

/-- The program, in both builds. -/
def program (L : Launch) : Program (When L.txnType) (Behaviours (When L.txnType) Nat) Nat where
  setup := L.setup
  file := L.file
  app := app L.rt L.stray
  runtime := fun _ => L.runtime
  spawns := L.spawns
  AllDone := Behaviours.AllDone
  enough := L.enough
  resolves := L.wellFormed.resolves L.rt L.stray
  steady := ⟨fun _ _ _ => rfl, fun _ _ _ _ _ _ _ => rfl⟩
  spawn_isSome := fun _ _ _ => rfl
  workers_finish := by
    intro calls t h
    obtain ⟨ws, u, hws, -, hall⟩ := (Behaviours.run_inv conflict_symm h).completes conflict_symm
    exact ⟨ws, u, hws, hall⟩

theorem exec_count {op : Type} (ops : List op) (n : Nat) :
    exec (fun _ txCnt => txCnt + 1) ops n = n + ops.length := by
  induction ops generalizing n with
  | nil => rfl
  | cons b ops ih =>
    rw [exec_cons, ih, List.length_cons]
    omega

/-- A record spawns one behaviour if it names something. -/
theorem length_spawns {es : List Nat} (hes : ∀ k ∈ es, k < L.setup.log.readCount) :
    (es.flatMap L.spawns).length = es.countP fun k => 0 < L.count k := by
  induction es with
  | nil => rfl
  | cons k es ih =>
    have hk : (whenOf L.txnType L.file (L.setup.log.record k)).isSome ↔ 0 < L.count k :=
      whenOf_isSome_iff (L.wellFormed.counts k (hes k List.mem_cons_self))
    rw [List.flatMap_cons, List.length_append, List.countP_cons,
      ih fun k' hk' => hes k' (List.mem_cons_of_mem k hk'), Nat.add_comm]
    refine congrArg _ ?_
    rw [spawns, Chain.spawns, List.length_map]
    cases hw : whenOf L.txnType L.file (L.setup.log.record k) with
    | none =>
      rw [hw] at hk
      rw [if_neg fun hp => Bool.false_ne_true (hk.mpr (of_decide_eq_true hp))]
      rfl
    | some w =>
      rw [hw] at hk
      rw [if_pos (decide_eq_true (hk.mp rfl))]
      rfl

/-- A run of the workers on the records `es`. -/
theorem inOrder_of_run {es : List Nat} {t : Behaviours (When L.txnType) Nat}
    {calls : List (Call (When L.txnType) Nat)} (h : L.runtime.run calls = some t)
    (hsp : Call.spawned calls = es.flatMap L.spawns)
    (hes : ∀ k ∈ es, k < L.setup.log.readCount) : L.InOrder es t := by
  have hinv := Behaviours.run_inv conflict_symm h
  have hspawned := (Behaviours.spawned_eq h).trans hsp
  have hcounter : t.state = t.done.length := by
    rw [hinv.state, exec_count, List.length_map, Nat.zero_add]
  have hrows : ∀ r, visitors t r <+: L.naming es r := by
    intro r
    rw [naming, ← hspawned]
    exact hinv.isPrefix_filter fun w w' hw hw' =>
      ⟨r, of_decide_eq_true hw, of_decide_eq_true hw'⟩
  refine ⟨hspawned, hinv.nodup, hcounter, hrows, fun hall => ?_⟩
  have hperm := hinv.perm
  rw [Behaviours.finished_of_allDone hall] at hperm
  have hmap := hperm.map (opAt t.spawned)
  rw [map_opAt_range] at hmap
  refine ⟨?_, fun r => (hrows r).eq_of_length ?_⟩
  · rw [hcounter, ← length_spawns hes, ← hspawned, hperm.length_eq, List.length_range]
  · rw [visitors, (hmap.filter _).length_eq, naming, hspawned]

theorem means_inOrder (L : Launch) : L.program.Means L.InOrder :=
  fun _ _ _ hes h hsp => inOrder_of_run h hsp hes

/-- **A row is handed to the transactions that name it in the order of the log.**  None is
left out and none comes twice; and the workers alone can finish all that was dispatched. -/
theorem chain_in_order (L : Launch) (tr : List (System.Label Pipeline.Label Nat)) {s}
    (h : L.program.machine.run tr = some s) (hstep : L.program.InStep tr) :
    ∃ es : List Nat,
      Pipeline.dispatched (System.threads tr) = es.map L.setup.log.record ∧
      es <+: L.program.replay (Pipeline.pushedIdxPref (System.threads tr)) ∧
      L.InOrder es s.runtime ∧
      ∃ (ws : List Nat) (s' : _),
        L.program.machine.run (tr ++ ws.map System.Label.worker) = some s' ∧
        s'.front = s.front ∧ s'.mem = s.mem ∧ s'.runtime.AllDone ∧
        L.InOrder es s'.runtime := by
  obtain ⟨es, -, hall⟩ := Program.serial L.program.replays L.means_inOrder h hstep
  exact ⟨es, hall⟩

/-! ## The build without `CORE_PIPE` -/

/-- **The single-threaded dispatcher** hands a row to the same transactions, in the order of
its own replay. -/
theorem chain_file_in_order (L : Launch) (prefetch : Bool)
    (tr : List (System.Label FileProgram.Label Nat)) {s}
    (h : (L.program.fileMachine prefetch).run tr = some s) :
    ∃ es : List Nat,
      L.program.fileDispatched prefetch tr = es.map L.setup.log.record ∧
      es <+: FileProgram.replay (L.program.fileSetup prefetch) (System.threads tr) ∧
      L.InOrder es s.runtime ∧
      ∃ (ws : List Nat) (s' : _),
        (L.program.fileMachine prefetch).run (tr ++ ws.map System.Label.worker) = some s' ∧
        s'.front = s.front ∧ s'.mem = s.mem ∧ s'.runtime.AllDone ∧
        L.InOrder es s'.runtime := by
  obtain ⟨es, -, hall⟩ := Program.serial (L.program.fileReplays prefetch) L.means_inOrder h trivial
  exact ⟨es, hall⟩

/-- **The builds agree** on the first pass over the log: if they have dispatched as many
transactions and run them all, every row was handed to the same ones in the same order. -/
theorem chain_builds_agree (L : Launch) (prefetch : Bool)
    (tr : List (System.Label Pipeline.Label Nat))
    (tr' : List (System.Label FileProgram.Label Nat)) {s s'} (h : L.program.machine.run tr = some s)
    (h' : (L.program.fileMachine prefetch).run tr' = some s')
    (hreq : Pipeline.received (System.threads tr) ≤ L.setup.log.readCount - maxBatch)
    (hlen : (L.program.fileDispatched prefetch tr').length =
      (Pipeline.dispatched (System.threads tr)).length)
    (hall : s.runtime.AllDone) (hall' : s'.runtime.AllDone) :
    s'.runtime.state = s.runtime.state ∧ ∀ r, visitors s'.runtime r = visitors s.runtime r := by
  obtain ⟨es, -, horder, horder'⟩ := Program.builds_first_pass L.means_inOrder h h' hreq hlen
  obtain ⟨hcnt, hrows⟩ := horder.complete hall
  obtain ⟨hcnt', hrows'⟩ := horder'.complete hall'
  exact ⟨hcnt'.trans hcnt.symm, fun r => (hrows' r).trans (hrows r).symm⟩

end Launch

/-! ## One transfer -/

/-- The row with a number. -/
def rowAt (T : TxnType) (j : Nat) : Row T :=
  ((getRow T (.resource, UInt64.ofNat j)).or (getRow T (.user, UInt64.ofNat (j - T.numResrc)))).getD
    ⟨(.user, 0), by cases T <;> decide⟩

theorem rowAt_slotOf {T : TxnType} (r : Row T) : rowAt T (T.slotOf r.val) = r := by
  obtain ⟨⟨t, key⟩, hr⟩ := r
  cases t with
  | resource =>
    simp only [rowAt, TxnType.slotOf, UInt64.ofNat_toNat, getRow_of_lt hr, Option.some_or,
      Option.getD_some]
  | user =>
    have hlt : key.toNat < numAccounts := hr
    have hbig : numAccounts = 289023 := rfl
    have hle := T.numResrc_le
    have hslot : (UInt64.ofNat (T.numResrc + key.toNat)).toNat = T.numResrc + key.toNat :=
      UInt64.toNat_ofNat_of_lt' (by simp only [UInt64.size]; omega)
    have hnone : getRow T (.resource, UInt64.ofNat (T.numResrc + key.toNat)) = none := by
      refine dif_neg fun h => ?_
      rw [hslot] at h
      exact absurd h (Nat.not_lt.mpr (Nat.le_add_right _ _))
    simp only [rowAt, TxnType.slotOf, hnone, Option.none_or, Nat.add_sub_cancel_left,
      UInt64.ofNat_toNat, getRow_of_lt hr, Option.getD_some]

/-- Cowns that are known by the places at which they were made. -/
def placed (T : TxnType) (base : UInt64) (h : base.toNat + (allocSize T).toNat ≤ 2 ^ 64) :
    CownAddrs (Row T) where
  getBaseAddr := fun r => rowAddr T base r.val
  getCownPtrFromAddr := fun a => rowAt T ((a.toNat - base.toNat) / 1024)
  from_base := by
    intro r
    rw [rowAddr_toNat h, Nat.add_sub_cancel_left, Nat.mul_div_cancel_left _ (by decide)]
    exact rowAt_slotOf r

/-- A transfer between two accounts. -/
def exampleBytes (t : Nat × Nat) : List UInt8 :=
  leBytes 4 t.1 ++ leBytes 4 t.2 ++ List.replicate 56 0

def exampleMapped : List UInt8 := logFile 5 exampleBytes [(1, 2), (2, 1), (2, 3), (3, 3), (1, 3)]

def exampleLaunch : Launch where
  txnType := .p2p
  rpcLatency := true
  batch := 0
  logArr := fun _ => 0
  rt := placed .p2p 2097152 (by decide)
  stray := fun _ => 0
  file := exampleMapped
  enough := by decide
  wellFormed := ⟨rfl, by decide +kernel, by decide +kernel, by decide +kernel⟩

/-- One request goes through the pipeline, and its body is run. -/
def exampleRun : List (System.Label Pipeline.Label Nat) :=
  (Pipeline.oneRequest ++ [Pipeline.Label.spawner (.dispatch 4 (some (0, 7)))]).map .thread ++
    [.worker 0]

theorem exampleRun_inStep {s} (h : exampleLaunch.program.machine.run exampleRun = some s) :
    exampleLaunch.program.InStep exampleRun :=
  Program.inStep_of_received h (by decide)

theorem exampleRun_runs : ∃ s, exampleLaunch.program.machine.run exampleRun = some s ∧
    s.runtime.done = [0] ∧ s.runtime.spawned.length = 1 := ⟨_, rfl, rfl, rfl⟩

theorem chain_in_order_example : ∃ s es, exampleLaunch.program.machine.run exampleRun = some s ∧
    exampleLaunch.InOrder es s.runtime := by
  obtain ⟨s, hs, -, -⟩ := exampleRun_runs
  obtain ⟨es, -, -, horder, -⟩ :=
    Launch.chain_in_order exampleLaunch exampleRun hs (exampleRun_inStep hs)
  exact ⟨s, es, hs, horder⟩

/-- The same request in the build without `CORE_PIPE`. -/
def exampleFileRun : List (System.Label FileProgram.Label Nat) :=
  [FileProgram.Label.handler (.store 0 7), .handler .count, .thread .wrap,
    .thread (.load 1 (some 1)), .thread (.prepare 4), .thread .exitPrepare, .thread (.prefetch 4),
    .thread .exitPrefetch, .thread (.dispatch 4 (some (0, 7)))].map .thread ++ [.worker 0]

theorem exampleFileRun_runs : ∃ s,
    (exampleLaunch.program.fileMachine true).run exampleFileRun = some s ∧
      s.runtime.done = [0] ∧ s.runtime.spawned.length = 1 := ⟨_, rfl, rfl, rfl⟩

theorem chain_file_in_order_example : ∃ s es,
    (exampleLaunch.program.fileMachine true).run exampleFileRun = some s ∧
      exampleLaunch.InOrder es s.runtime := by
  obtain ⟨s, hs, -, -⟩ := exampleFileRun_runs
  obtain ⟨es, -, -, horder, -⟩ := Launch.chain_file_in_order exampleLaunch true exampleFileRun hs
  exact ⟨s, es, hs, horder⟩

theorem chain_builds_agree_example : ∃ s s', exampleLaunch.program.machine.run exampleRun = some s ∧
    (exampleLaunch.program.fileMachine true).run exampleFileRun = some s' ∧
      ∀ r, visitors s'.runtime r = visitors s.runtime r := by
  obtain ⟨s, hs, hdone, hone⟩ := exampleRun_runs
  obtain ⟨s', hs', hdone', hone'⟩ := exampleFileRun_runs
  have hall : s.runtime.AllDone := by
    intro i hi
    rw [hdone]
    exact List.mem_singleton.mpr (by omega)
  have hall' : s'.runtime.AllDone := by
    intro i hi
    rw [hdone']
    exact List.mem_singleton.mpr (by omega)
  exact ⟨s, s', hs, hs', (Launch.chain_builds_agree exampleLaunch true exampleRun exampleFileRun
    hs hs' (by decide) rfl hall hall').2⟩

end Doradd.Chain
