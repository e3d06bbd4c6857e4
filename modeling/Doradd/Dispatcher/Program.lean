import Doradd.Dispatcher.Draining
import Doradd.Dispatcher.FileDraining
import Doradd.Dispatcher.FirstPass
import Doradd.Dispatcher.System

/-!
# A program on a mapped log

What the programs share.  A log of records is mapped, a front end replays it, and the workers
run the behaviours that are spawned.  The application, the runtime and what a run of the
workers on some records leads to are parameters.

* `Replays`: a front end dispatches the records of its batches, one after the other;
* `serial`: the program runs the records of the replay, and the workers can finish them;
* `first_pass`: before the log is replayed these are the first records;
* `completes`: the front end and the workers can go on until every request is done.
-/

namespace Doradd

open Lib

/-! ## Front ends -/

namespace FrontEnd

variable {φ flab : Type} {F : FrontEnd φ flab} {log : Log} {ok : List flab → Prop}
  {batches : List flab → List Nat} {tr : List flab} {p : φ}

/-- The front end takes batches and, as long as its run is `ok`, serves the records that
they lead to. -/
structure Replays (F : FrontEnd φ flab) (log : Log) (ok : List flab → Prop)
    (batches : List flab → List Nat) : Prop where
  isBatches : ∀ tr p, F.machine.run tr = some p → IsBatches (batches tr)
  serves : ∀ tr p, F.machine.run tr = some p → ok tr → ∃ es,
    es <+: (⟨0, 0⟩ : Pos).visits (spawnLimit log.readCount) (batches tr) ∧ F.Serves log es tr

/-- **On the first pass** the records are those at the front of the log. -/
theorem Replays.first_pass (hr : F.Replays log ok batches) (h : F.machine.run tr = some p)
    (hok : ok tr) (hlen : (F.dispatched tr).length ≤ log.readCount - maxBatch + 1) :
    F.Serves log (List.range (F.dispatched tr).length) tr := by
  obtain ⟨es, hbegins, hsv⟩ := hr.serves tr p h hok
  have hcount : es.length = (F.dispatched tr).length := by
    rw [hsv.dispatched, List.length_map]
  have hes := visits_first_pass (hr.isBatches tr p h) hbegins (hcount.trans_le hlen)
  rw [hcount] at hes
  rwa [hes] at hsv

end FrontEnd

theorem Pipeline.metered_frontEnd (c : Setup) :
    (Pipeline.frontEnd c).machine.Metered (.handler .count) (2 ^ 64) 13 Pipeline.works
      Pipeline.left Pipeline.Idle fun tr => ((Pipeline.frontEnd c).dispatched tr).length :=
  Pipeline.metered c

theorem FileProgram.metered_frontEnd (c : FileProgram.Setup) :
    (FileProgram.frontEnd c).machine.Metered (.handler .count) (2 ^ 64) 8 FileProgram.works
      FileProgram.left FileProgram.Idle
      fun tr => ((FileProgram.frontEnd c).dispatched tr).length := by
  simp only [FileProgram.dispatched_frontEnd]
  exact FileProgram.metered c

/-! ## Programs -/

/-- A program on a mapped file.  `runtime mem` runs behaviours while `mem` is in the log; record
`k` spawns `spawns k`. -/
structure Program (op τ lab : Type) where
  setup : Setup
  file : List UInt8
  app : App op
  runtime : List UInt8 → Machine τ (Call op lab)
  spawns : Nat → List op
  AllDone : τ → Prop
  enough : maxBatch ≤ setup.log.readCount
  resolves : System.Resolves app setup.log file spawns
  steady : System.Steady runtime file (System.OfLog setup.log spawns)
    (System.Prepared app setup.log file)
  spawn_isSome : ∀ mem t b, ((runtime mem).step t (.spawn b)).isSome
  workers_finish : ∀ calls t, (runtime file).run calls = some t →
    ∃ (ws : List lab) (u : τ), (runtime file).runFrom t (ws.map .work) = some u ∧ AllDone u

namespace Program

variable {op τ lab : Type} (P : Program op τ lab)

/-- The program with a front end. -/
def system {φ flab : Type} (F : FrontEnd φ flab) : Machine (System φ τ) (System.Label flab lab) :=
  System.machine F P.app P.runtime P.file

def machine : Machine (System Pipeline τ) (System.Label Pipeline.Label lab) :=
  P.system (Pipeline.frontEnd P.setup)

/-- The indexer's wrap tests come out as tests with `MAX_BATCH`. -/
def InStep (tr : List (System.Label Pipeline.Label lab)) : Prop :=
  Pipeline.InStep P.setup (System.threads tr)

/-- The program in the build without `CORE_PIPE`, with or without `PREFETCH`. -/
def fileSetup (prefetch : Bool) : FileProgram.Setup :=
  ⟨⟨P.setup.rpcLatency, prefetch⟩, P.setup.log, P.setup.logArr⟩

def fileMachine (prefetch : Bool) :
    Machine (System FileProgram τ) (System.Label FileProgram.Label lab) :=
  P.system (FileProgram.frontEnd (P.fileSetup prefetch))

/-- The addresses of the records that this build has dispatched. -/
def fileDispatched (prefetch : Bool) (tr : List (System.Label FileProgram.Label lab)) : List Nat :=
  (FileProgram.frontEnd (P.fileSetup prefetch)).dispatched (System.threads tr)

/-- The records of the replay of some batches. -/
def replay (bs : List Nat) : List Nat :=
  (⟨0, 0⟩ : Pos).visits (spawnLimit P.setup.log.readCount) bs

theorem replays (P : Program op τ lab) : (Pipeline.frontEnd P.setup).Replays P.setup.log
    (Pipeline.InStep P.setup) Pipeline.pushedIdxPref :=
  ⟨fun _ _ h => Pipeline.isBatches_pushedIdxPref h,
    fun _ _ h hok => Pipeline.serves P.enough h hok⟩

theorem fileReplays (P : Program op τ lab) (prefetch : Bool) :
    (FileProgram.frontEnd (P.fileSetup prefetch)).Replays P.setup.log (fun _ => True)
      FileProgram.taken :=
  ⟨fun _ _ h => FileThread.isBatches_taken (FileProgram.thread_run h),
    fun _ _ h _ => FileProgram.serves (c := P.fileSetup prefetch) P.enough h⟩

/-- `Q` is what a run of the workers on the records `es` leads to. -/
def Means (Q : List Nat → τ → Prop) : Prop :=
  ∀ es calls t, (∀ k ∈ es, k < P.setup.log.readCount) → (P.runtime P.file).run calls = some t →
    Call.spawned calls = es.flatMap P.spawns → Q es t

variable {P} {Q : List Nat → τ → Prop}

/-- While no batch is replayed the wrap tests do not matter. -/
theorem inStep_of_received {tr : List (System.Label Pipeline.Label lab)} {s}
    (h : P.machine.run tr = some s)
    (hreq : Pipeline.received (System.threads tr) ≤ P.setup.log.readCount - maxBatch) :
    P.InStep tr :=
  Pipeline.inStep_of_received P.enough (System.front_run h) hreq

/-- As many requests as there are records can be counted. -/
theorem lt_width (P : Program op τ lab) {n : Nat} (h : n ≤ P.setup.log.readCount - maxBatch) :
    n < 2 ^ 64 := by
  have hlt := P.setup.log.readCount_lt
  omega

section

variable {φ flab : Type} {F : FrontEnd φ flab} {tr : List (System.Label flab lab)}
  {s : System φ τ} {es : List Nat}

/-- Every run of the front end is one of the program. -/
theorem exists_run {ls : List flab} {p : φ} (h : F.machine.run ls = some p) :
    ∃ s, (P.system F).run (ls.map .thread) = some s :=
  System.exists_run P.app P.file P.spawn_isSome h

/-- Any front end that serves the records `es`. -/
theorem of_serves (hQ : P.Means Q) (h : (P.system F).run tr = some s)
    (hsv : F.Serves P.setup.log es (System.threads tr)) :
    Q es s.runtime ∧
      ∃ (ws : List lab) (s' : _), (P.system F).run (tr ++ ws.map System.Label.worker) = some s' ∧
        s'.front = s.front ∧ s'.mem = s.mem ∧ P.AllDone s'.runtime ∧ Q es s'.runtime := by
  obtain ⟨calls, hcalls, hspawned⟩ := System.runtime_run P.resolves P.steady h hsv
  obtain ⟨ws, t, hws, hall⟩ := P.workers_finish calls s.runtime hcalls
  have hmore : Call.spawned (calls ++ ws.map Call.work) = es.flatMap P.spawns := by
    rw [Call.spawned_append, Call.spawned_map_work, List.append_nil, hspawned]
  exact ⟨hQ es calls s.runtime hsv.inside hcalls hspawned, ws, ⟨s.front, s.mem, t⟩,
    System.run_worker P.steady h hsv hcalls hspawned hws, rfl, rfl, hall,
    hQ es _ t hsv.inside (Machine.runFrom_append_of hcalls hws) hmore⟩

/-- However the front end goes on, the workers can finish what it dispatches. -/
theorem goOn_of_serves (hQ : P.Means Q) (h : (P.system F).run tr = some s) {ls : List flab} {p : φ}
    (hp : F.machine.run (System.threads tr ++ ls) = some p)
    (hsv : F.Serves P.setup.log es (System.threads tr ++ ls)) :
    ∃ (ws : List lab) (s' : _), (P.system F).run (tr ++ System.goOn ls ws) = some s' ∧
      s'.front = p ∧ P.AllDone s'.runtime ∧ Q es s'.runtime := by
  obtain ⟨t, ht, rfl⟩ := System.run_thread P.spawn_isSome h hp
  rw [← @System.threads_map_thread flab lab ls, ← System.threads_append] at hsv
  obtain ⟨-, ws, s', hs', hfront, -, hall, hend⟩ := of_serves hQ ht hsv
  rw [List.append_assoc] at hs'
  exact ⟨ws, s', hs', hfront, hall, hend⟩

variable {ok : List flab → Prop} {batches : List flab → List Nat}

/-- **The program runs the replay of its log**, and the workers alone can finish all that was
dispatched. -/
theorem serial (hr : F.Replays P.setup.log ok batches) (hQ : P.Means Q)
    (h : (P.system F).run tr = some s) (hok : ok (System.threads tr)) :
    ∃ es : List Nat, (∀ k ∈ es, k < P.setup.log.readCount) ∧
      F.dispatched (System.threads tr) = es.map P.setup.log.record ∧
      es <+: P.replay (batches (System.threads tr)) ∧ Q es s.runtime ∧
      ∃ (ws : List lab) (s' : _), (P.system F).run (tr ++ ws.map System.Label.worker) = some s' ∧
        s'.front = s.front ∧ s'.mem = s.mem ∧ P.AllDone s'.runtime ∧ Q es s'.runtime := by
  obtain ⟨es, hbegins, hsv⟩ := hr.serves _ _ (System.front_run h) hok
  obtain ⟨hmeans, hmore⟩ := of_serves hQ h hsv
  exact ⟨es, hsv.inside, hsv.dispatched, hbegins, hmeans, hmore⟩

/-- **The first pass** runs the first records, whatever the front end is. -/
theorem first_pass (hr : F.Replays P.setup.log ok batches) (hQ : P.Means Q)
    (h : (P.system F).run tr = some s) (hok : ok (System.threads tr)) {m : Nat}
    (hlen : (F.dispatched (System.threads tr)).length = m)
    (hm : m ≤ P.setup.log.readCount - maxBatch + 1) :
    F.dispatched (System.threads tr) = (List.range m).map P.setup.log.record ∧
      Q (List.range m) s.runtime := by
  subst hlen
  have hsv := hr.first_pass (System.front_run h) hok hm
  exact ⟨hsv.dispatched, (of_serves hQ h hsv).1⟩

variable [DecidableEq flab] {a : flab} {n k : Nat} {works : flab → Bool} {left : φ → Nat}
  {idle : φ → Prop}

/-- **Everything can be completed.**  If the front end works off its requests `a`, it and then
the workers can go on until the records of all requests have been run. -/
theorem completes (hr : F.Replays P.setup.log ok batches)
    (hm : F.machine.Metered a n k works left idle fun tr => (F.dispatched tr).length)
    (hQ : P.Means Q) (h : (P.system F).run tr = some s) (hlt : (System.threads tr).count a < n)
    (hok : ∀ ls p, F.machine.run (System.threads tr ++ ls) = some p →
      (System.threads tr ++ ls).count a = (System.threads tr).count a →
        ok (System.threads tr ++ ls)) :
    ∃ (es : List Nat) (ls : List flab) (ws : List lab) (s' : _), (∀ l ∈ ls, works l) ∧
      (P.system F).run (tr ++ System.goOn ls ws) = some s' ∧ idle s'.front ∧
      F.machine.run (System.threads tr ++ ls) = some s'.front ∧
      (System.threads tr ++ ls).count a = (System.threads tr).count a ∧
      (∀ k ∈ es, k < P.setup.log.readCount) ∧ es.length = (System.threads tr).count a ∧
      es <+: P.replay (batches (System.threads tr ++ ls)) ∧ P.AllDone s'.runtime ∧
      Q es s'.runtime := by
  obtain ⟨ls, p, hp, hworks, hsame, hdone, hidle⟩ := hm.exists_drain (System.front_run h) hlt
  obtain ⟨es, hbegins, hsv⟩ := hr.serves _ p hp (hok ls p hp hsame)
  obtain ⟨ws, s', hs', rfl, hall, hend⟩ := goOn_of_serves hQ h hp hsv
  refine ⟨es, ls, ws, s', hworks, hs', hidle, hp, hsame, hsv.inside, ?_, hbegins, hall, hend⟩
  rw [← hdone, hsv.dispatched, List.length_map]

/-- On the first pass these are the first records. -/
theorem completes_first_pass (hr : F.Replays P.setup.log ok batches)
    (hm : F.machine.Metered a (2 ^ 64) k works left idle fun tr => (F.dispatched tr).length)
    (hQ : P.Means Q) (h : (P.system F).run tr = some s)
    (hreq : (System.threads tr).count a ≤ P.setup.log.readCount - maxBatch)
    (hok : ∀ ls p, F.machine.run (System.threads tr ++ ls) = some p →
      (System.threads tr ++ ls).count a = (System.threads tr).count a →
        ok (System.threads tr ++ ls)) :
    ∃ (ls : List flab) (ws : List lab) (s' : _), (∀ l ∈ ls, works l) ∧
      (P.system F).run (tr ++ System.goOn ls ws) = some s' ∧ idle s'.front ∧
      P.AllDone s'.runtime ∧ Q (List.range ((System.threads tr).count a)) s'.runtime := by
  obtain ⟨es, ls, ws, s', hworks, hs', hidle, hp, -, -, hlen, hbegins, hall, hend⟩ :=
    completes hr hm hQ h (P.lt_width hreq) hok
  have hes := visits_first_pass (hr.isBatches _ _ hp) hbegins
    (hlen.trans_le (Nat.le_succ_of_le hreq))
  rw [hlen] at hes
  rw [hes] at hend
  exact ⟨ls, ws, s', hworks, hs', hidle, hall, hend⟩

end

/-- **Both builds** run the same records on the first pass, if they have dispatched as many. -/
theorem builds_first_pass (hQ : P.Means Q) {tr : List (System.Label Pipeline.Label lab)}
    {tr' : List (System.Label FileProgram.Label lab)} {prefetch : Bool} {s s'}
    (h : P.machine.run tr = some s) (h' : (P.fileMachine prefetch).run tr' = some s')
    (hreq : Pipeline.received (System.threads tr) ≤ P.setup.log.readCount - maxBatch)
    (hlen : (P.fileDispatched prefetch tr').length =
      (Pipeline.dispatched (System.threads tr)).length) :
    ∃ es : List Nat, Pipeline.dispatched (System.threads tr) = es.map P.setup.log.record ∧
      Q es s.runtime ∧ Q es s'.runtime := by
  have hk := (Pipeline.dispatched_first_pass P.enough (System.front_run h) hreq).1
  have hm := Nat.le_succ_of_le (hk.trans hreq)
  obtain ⟨hdisp, hend⟩ := first_pass P.replays hQ h (inStep_of_received h hreq) rfl hm
  exact ⟨_, hdisp, hend, (first_pass (P.fileReplays prefetch) hQ h' trivial hlen hm).2⟩

/-- The pipeline stays in step while it works off the requests of the first pass. -/
theorem inStep_goOn {tr : List (System.Label Pipeline.Label lab)}
    (hreq : Pipeline.received (System.threads tr) ≤ P.setup.log.readCount - maxBatch)
    (ls : List Pipeline.Label) (p : Pipeline)
    (hp : (Pipeline.frontEnd P.setup).machine.run (System.threads tr ++ ls) = some p)
    (hsame : Pipeline.received (System.threads tr ++ ls) = Pipeline.received (System.threads tr)) :
    Pipeline.InStep P.setup (System.threads tr ++ ls) :=
  Pipeline.inStep_of_received P.enough hp (hsame.trans_le hreq)

end Program

end Doradd
