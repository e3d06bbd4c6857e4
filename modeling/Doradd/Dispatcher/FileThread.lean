import Doradd.Dispatcher.FileDispatcher
import Doradd.Dispatcher.FrontEnd
import Doradd.Dispatcher.Indexer
import Doradd.Dispatcher.RPCHandler

/-!
# FileDispatcher, step by step

In the build without `CORE_PIPE` one thread prepares, prefetches and dispatches a batch,
while the handler goes on counting requests and the workers run what has been dispatched.

* `dispatching_walks`, `preparing_walks`: the loops that dispatch and that prepare are
  walkers that take the same batches;
* `serves`: the records of the replay are dispatched in order, each of them prepared.
-/

namespace Doradd

open Lib

inductive FileDispatcher.Pc
  | head
  | check
  | prepare
  | prefetch
  | dispatch
  | done
  deriving DecidableEq, Repr

/-- A `FileDispatcher` in `run`, with the variables of `dispatch_batch`; the loops share
the counter `i`. -/
structure FileThread where
  pc : FileDispatcher.Pc
  self : FileDispatcher
  lookAhead : Nat
  i : Nat
  deriving DecidableEq, Repr

namespace FileThread

/-- `wrap` is the test at the start of `dispatch_batch`, `load v r` one load of the request
counter with value `v` and its result; `exitPrepare` and `exitPrefetch` end a loop, and
`finish` ends the batch. -/
inductive Label
  | stop
  | wrap
  | load (v : Nat) (r : Option Nat)
  | prepare (a : Nat)
  | exitPrepare
  | prefetch (a : Nat)
  | exitPrefetch
  | dispatch (a : Nat) (t : Option (Nat × Nat))
  | finish
  deriving DecidableEq, Repr

/-- `txn_log_id >= RPC_LOG_SIZE` -/
def logFull (build : FileDispatcher.Build) (s : FileThread) : Prop :=
  build.rpcLatency = true ∧ rpcLogSize ≤ s.self.txnLogId

instance (build : FileDispatcher.Build) (s : FileThread) : Decidable (logFull build s) :=
  inferInstanceAs (Decidable (_ ∧ _))

def step (build : FileDispatcher.Build) (log : Log) (s : FileThread) : Label → Option FileThread
  | .stop => if s.pc = .head ∧ logFull build s then some { s with pc := .done } else none
  | .wrap =>
    if s.pc = .head ∧ ¬ logFull build s then
      some { s with pc := .check, self := s.self.rewind log }
    else none
  | .load v none =>
    if s.pc = .check ∧ checkAvailCnts v s.self.handledReqCnt = none then some s else none
  | .load v (some b) =>
    if s.pc = .check ∧ checkAvailCnts v s.self.handledReqCnt = some b then
      some { s with pc := .prepare, lookAhead := b, i := 0 }
    else none
  | .prepare a =>
    if s.pc = .prepare ∧ s.i < s.lookAhead ∧ a = s.self.prepareProcReadHead then
      some { s with self := (s.self.prepareOne log).1, i := s.i + 1 }
    else none
  | .exitPrepare =>
    if s.pc = .prepare ∧ ¬ s.i < s.lookAhead then
      some { s with pc := if build.prefetch then .prefetch else .dispatch, i := 0 }
    else none
  | .prefetch a =>
    if s.pc = .prefetch ∧ s.i < s.lookAhead ∧ a = s.self.prepareParseReadHead then
      some { s with self := (s.self.prefetchOne log).1, i := s.i + 1 }
    else none
  | .exitPrefetch =>
    if s.pc = .prefetch ∧ ¬ s.i < s.lookAhead then some { s with pc := .dispatch, i := 0 }
    else none
  | .dispatch a t =>
    if s.pc = .dispatch ∧ s.i < s.lookAhead ∧ a = s.self.cursor.readHead ∧
        t.map Prod.fst = (if build.rpcLatency then some s.self.txnLogId else none) then
      some { s with self := (s.self.dispatchOne build log).1, i := s.i + 1 }
    else none
  | .finish =>
    if s.pc = .dispatch ∧ ¬ s.i < s.lookAhead then
      some { s with
        pc := .head
        self := { s.self with
          handledReqCnt := (s.self.handledReqCnt + s.lookAhead) % 2 ^ 64 } }
    else none

def init (log : Log) : FileThread := ⟨.head, .init log, 0, 0⟩

def machine (build : FileDispatcher.Build) (log : Log) : Machine FileThread Label :=
  ⟨init log, step build log⟩

/-- The sizes returned by `check_avail_cnts`. -/
def taken (tr : List Label) : List Nat :=
  tr.filterMap fun
    | .load _ (some b) => some b
    | _ => none

/-- The records on which `prepare_cowns` ran. -/
def prepared (tr : List Label) : List Nat :=
  tr.filterMap fun
    | .prepare a => some a
    | _ => none

/-- The records dispatched. -/
def dispatched (tr : List Label) : List Nat :=
  tr.filterMap fun
    | .dispatch a _ => some a
    | _ => none

/-! ## Two walkers -/

/-- Records of the batch in hand that are still to be dispatched. -/
def toDispatch (s : FileThread) : Nat :=
  match s.pc with
  | .prepare | .prefetch => s.lookAhead
  | .dispatch => s.lookAhead - s.i
  | _ => 0

/-- Records of the batch in hand that are still to be prepared. -/
def toPrepare (s : FileThread) : Nat :=
  match s.pc with
  | .prepare => s.lookAhead - s.i
  | _ => 0

def dispatching (s : FileThread) : Walker := ⟨s.self.cursor, s.lookAhead, s.toDispatch⟩

/-- The loop that prepares is ahead of the one that dispatches. -/
def preparing (s : FileThread) : Walker :=
  ⟨⟨(s.self.cursor.idx + (s.toDispatch - s.toPrepare)) % 2 ^ 32, s.self.prepareProcReadHead⟩,
    s.lookAhead, s.toPrepare⟩

def walkDispatching : Label → Option Walker.Label
  | .wrap => some .wrap
  | .load _ (some b) => some (.take b)
  | .dispatch a _ => some (.visit a)
  | _ => none

def walkPreparing : Label → Option Walker.Label
  | .wrap => some .wrap
  | .load _ (some b) => some (.take b)
  | .prepare a => some (.visit a)
  | _ => none

theorem taken_dispatching (tr : List Label) :
    Walker.taken (tr.filterMap walkDispatching) = taken tr := by
  rw [Walker.taken, taken, List.filterMap_filterMap]
  congr 1
  funext l
  rcases l with _ | _ | ⟨_, _ | _⟩ | _ | _ | _ | _ | _ | _ <;> rfl

theorem taken_preparing (tr : List Label) :
    Walker.taken (tr.filterMap walkPreparing) = taken tr := by
  rw [Walker.taken, taken, List.filterMap_filterMap]
  congr 1
  funext l
  rcases l with _ | _ | ⟨_, _ | _⟩ | _ | _ | _ | _ | _ | _ <;> rfl

theorem visited_dispatching (tr : List Label) :
    Walker.visited (tr.filterMap walkDispatching) = dispatched tr := by
  rw [Walker.visited, dispatched, List.filterMap_filterMap]
  congr 1
  funext l
  rcases l with _ | _ | ⟨_, _ | _⟩ | _ | _ | _ | _ | _ | _ <;> rfl

theorem visited_preparing (tr : List Label) :
    Walker.visited (tr.filterMap walkPreparing) = prepared tr := by
  rw [Walker.visited, prepared, List.filterMap_filterMap]
  congr 1
  funext l
  rcases l with _ | _ | ⟨_, _ | _⟩ | _ | _ | _ | _ | _ | _ <;> rfl

variable {build : FileDispatcher.Build} {log : Log} {tr : List Label} {s : FileThread}

/-- After the wrap test the record counter is not past the limit. -/
theorem not_wrap (h : (machine build log).run tr = some s) (hp : s.pc = .check) :
    ¬ log.wrapLimit < s.self.cursor.idx := by
  revert hp
  refine Machine.run_induction (P := fun _ s => s.pc = .check →
    ¬ log.wrapLimit < s.self.cursor.idx) (by intro hp; cases hp) ?_ h
  intro tr s l s' _ ih hl hp
  rcases l with _ | _ | ⟨v, _ | b⟩ | a | _ | a | _ | ⟨a, t⟩ | _ <;>
    simp only [machine, step, Option.ite_none_right_eq_some, Option.some.injEq] at hl
  case wrap =>
    obtain ⟨_, rfl⟩ := hl
    show ¬ log.wrapLimit < (s.self.rewind log).cursor.idx
    unfold FileDispatcher.rewind
    split
    · exact Nat.not_lt_zero _
    · assumption
  case load.none =>
    obtain ⟨_, rfl⟩ := hl
    exact ih hp
  case exitPrepare =>
    obtain ⟨_, rfl⟩ := hl
    cases hb : build.prefetch <;> simp [hb] at hp
  all_goals
    obtain ⟨_, rfl⟩ := hl
    simp_all

theorem rewind_cursor (log : Log) (d : FileDispatcher) :
    (d.rewind log).cursor = d.cursor.wrap log log.wrapLimit := by
  unfold FileDispatcher.rewind Cursor.wrap
  split <;> rfl

theorem idx_lt (h : (machine build log).run tr = some s) : s.self.cursor.idx < 2 ^ 32 := by
  refine Machine.run_induction (P := fun _ s => s.self.cursor.idx < 2 ^ 32)
    (Nat.two_pow_pos 32) ?_ h
  intro tr s l s' _ ih hl
  rcases l with _ | _ | ⟨v, _ | b⟩ | a | _ | a | _ | ⟨a, t⟩ | _ <;>
    simp only [machine, step, Option.ite_none_right_eq_some, Option.some.injEq] at hl
  case wrap =>
    obtain ⟨_, rfl⟩ := hl
    show (s.self.rewind log).cursor.idx < _
    rw [rewind_cursor, Cursor.wrap]
    split
    · exact Nat.two_pow_pos 32
    · exact ih
  case dispatch =>
    obtain ⟨_, rfl⟩ := hl
    exact Nat.mod_lt _ (Nat.two_pow_pos 32)
  all_goals
    obtain ⟨_, rfl⟩ := hl
    exact ih

/-- **The loop that dispatches.** -/
theorem dispatching_walks (h : (machine build log).run tr = some s) :
    (Walker.machine log (fun _ => log.wrapLimit) 0).run (tr.filterMap walkDispatching) =
      some s.dispatching := by
  refine Machine.run_project dispatching walkDispatching rfl ?_ h
  intro tr s l s' hrun hl
  rcases l with _ | _ | ⟨v, _ | b⟩ | a | _ | a | _ | ⟨a, t⟩ | _ <;>
    simp only [machine, step, Option.ite_none_right_eq_some, Option.some.injEq] at hl
  case stop => obtain ⟨⟨hp, _⟩, rfl⟩ := hl; simp [walkDispatching, dispatching, toDispatch, hp]
  case wrap =>
    obtain ⟨⟨hp, _⟩, rfl⟩ := hl
    simp [walkDispatching, dispatching, toDispatch, hp, Walker.machine, Walker.step, rewind_cursor]
  case load.none => obtain ⟨_, rfl⟩ := hl; rfl
  case load.some =>
    obtain ⟨⟨hp, _⟩, rfl⟩ := hl
    have hwrap : s.self.cursor.wrap log log.wrapLimit = s.self.cursor := if_neg (not_wrap hrun hp)
    simp [walkDispatching, dispatching, toDispatch, hp, Walker.machine, Walker.step, hwrap]
  case prepare => obtain ⟨⟨hp, _⟩, rfl⟩ := hl; simp [walkDispatching, dispatching, toDispatch, hp,
    FileDispatcher.prepareOne]
  case exitPrepare =>
    obtain ⟨⟨hp, _⟩, rfl⟩ := hl
    cases hb : build.prefetch <;> simp [walkDispatching, dispatching, toDispatch, hp]
  case prefetch => obtain ⟨⟨hp, _⟩, rfl⟩ := hl; simp [walkDispatching, dispatching, toDispatch, hp,
    FileDispatcher.prefetchOne]
  case exitPrefetch =>
    obtain ⟨⟨hp, _⟩, rfl⟩ := hl; simp [walkDispatching, dispatching, toDispatch, hp]
  case dispatch =>
    obtain ⟨⟨hp, hi, ha, _⟩, rfl⟩ := hl
    simp [walkDispatching, dispatching, toDispatch, hp, Walker.machine, Walker.step, ha,
      Nat.sub_sub, FileDispatcher.dispatchOne]
    omega
  case finish =>
    obtain ⟨⟨hp, hi⟩, rfl⟩ := hl
    simp [walkDispatching, dispatching, toDispatch, hp]
    omega

/-- **The loop that prepares.** -/
theorem preparing_walks (h : (machine build log).run tr = some s) :
    (Walker.machine log (fun _ => log.wrapLimit) 0).run (tr.filterMap walkPreparing) =
      some s.preparing := by
  refine Machine.run_project preparing walkPreparing ?_ ?_ h
  · simp [preparing, machine, init, FileDispatcher.init, toDispatch, toPrepare, Walker.machine,
      Log.at_zero]
  intro tr s l s' hrun hl
  have hidx := idx_lt hrun
  rcases l with _ | _ | ⟨v, _ | b⟩ | a | _ | a | _ | ⟨a, t⟩ | _ <;>
    simp only [machine, step, Option.ite_none_right_eq_some, Option.some.injEq] at hl
  case stop =>
    obtain ⟨⟨hp, _⟩, rfl⟩ := hl
    simp [walkPreparing, preparing, toDispatch, toPrepare, hp]
  case wrap =>
    obtain ⟨⟨hp, _⟩, rfl⟩ := hl
    have hmod : s.self.cursor.idx % 4294967296 = s.self.cursor.idx := Nat.mod_eq_of_lt hidx
    by_cases hlim : log.wrapLimit < s.self.cursor.idx
    · have hback : s.self.rewind log = { s.self with
          cursor := ⟨0, log.readTop⟩
          prepareParseReadHead := log.readTop
          prepareProcReadHead := log.readTop } := if_pos hlim
      simp [walkPreparing, preparing, toDispatch, toPrepare, hp, Walker.machine, Walker.step,
        hback, Cursor.wrap, hmod, hlim]
    · have hstay : s.self.rewind log = s.self := if_neg hlim
      simp [walkPreparing, preparing, toDispatch, toPrepare, hp, Walker.machine, Walker.step,
        hstay, Cursor.wrap, hmod, hlim]
  case load.none => obtain ⟨_, rfl⟩ := hl; rfl
  case load.some =>
    obtain ⟨⟨hp, _⟩, rfl⟩ := hl
    have hmod : s.self.cursor.idx % 4294967296 = s.self.cursor.idx := Nat.mod_eq_of_lt hidx
    simp [walkPreparing, preparing, toDispatch, toPrepare, hp, Walker.machine, Walker.step,
      Cursor.wrap, not_wrap hrun hp, hmod]
  case prepare =>
    obtain ⟨⟨hp, hi, ha⟩, rfl⟩ := hl
    simp only [walkPreparing, preparing, toDispatch, toPrepare, hp, Walker.machine, Walker.step,
      FileDispatcher.prepareOne, ha, Cursor.next]
    rw [if_pos ⟨by omega, trivial⟩]
    simp only [Option.some.injEq, Walker.mk.injEq, Cursor.mk.injEq, and_true, true_and]
    omega
  case exitPrepare =>
    obtain ⟨⟨hp, hi⟩, rfl⟩ := hl
    have hdone : s.lookAhead - s.i = 0 := by omega
    cases hb : build.prefetch <;>
      simp [walkPreparing, preparing, toDispatch, toPrepare, hp, hdone]
  case prefetch =>
    obtain ⟨⟨hp, _⟩, rfl⟩ := hl
    simp [walkPreparing, preparing, toDispatch, toPrepare, hp, FileDispatcher.prefetchOne]
  case exitPrefetch =>
    obtain ⟨⟨hp, _⟩, rfl⟩ := hl
    simp [walkPreparing, preparing, toDispatch, toPrepare, hp]
  case dispatch =>
    obtain ⟨⟨hp, hi, _⟩, rfl⟩ := hl
    simp only [walkPreparing, preparing, toDispatch, toPrepare, hp, FileDispatcher.dispatchOne,
      Cursor.next, Walker.mk.injEq, Cursor.mk.injEq, and_true]
    omega
  case finish =>
    obtain ⟨⟨hp, hi⟩, rfl⟩ := hl
    have hdone : s.lookAhead - s.i = 0 := by omega
    simp [walkPreparing, preparing, toDispatch, toPrepare, hp, hdone]

/-! ## What is prepared and dispatched -/

/-- Every batch taken is between 1 and `MAX_BATCH`. -/
theorem isBatches_taken (h : (machine build log).run tr = some s) : IsBatches (taken tr) := by
  refine Machine.run_induction (P := fun tr _ => IsBatches (taken tr)) isBatches_nil ?_ h
  intro tr s l s' _ ih hl
  rw [taken, List.filterMap_append, isBatches_append]
  refine ⟨ih, ?_⟩
  rcases l with _ | _ | ⟨v, _ | b⟩ | a | _ | a | _ | ⟨a, t⟩ | _
  case load.some =>
    simp only [machine, step, Option.ite_none_right_eq_some] at hl
    obtain ⟨h1, h2, _⟩ := checkAvailCnts_spec hl.1.2
    exact (isBatches_singleton b).mpr ⟨h1, h2⟩
  all_goals exact isBatches_nil

/-- Both loops go through the replay of the batches taken. -/
theorem tracks (hn : maxBatch ≤ log.readCount) (h : (machine build log).run tr = some s) :
    (∃ e, Walker.Tracks log (spawnLimit log.readCount) 0 (tr.filterMap walkDispatching)
      s.dispatching e) ∧
    ∃ e, Walker.Tracks log (spawnLimit log.readCount) 0 (tr.filterMap walkPreparing)
      s.preparing e := by
  have hf := fits_spawn hn ⟨0, 0⟩ (isBatches_taken h)
  have hdisp := dispatching_walks h
  have hprep := preparing_walks h
  rw [spawnLimit_eq hn] at hdisp hprep
  exact ⟨Walker.walker_at hdisp (by rwa [taken_dispatching]),
    Walker.walker_at hprep (by rwa [taken_preparing])⟩

/-- The records of the batches taken. -/
def replay (log : Log) (tr : List Label) : List Nat :=
  (⟨0, 0⟩ : Pos).visits (spawnLimit log.readCount) (taken tr)

theorem replay_lt (hn : maxBatch ≤ log.readCount) (h : (machine build log).run tr = some s) :
    ∀ k ∈ replay log tr, k < log.readCount :=
  (fits_spawn hn ⟨0, 0⟩ (isBatches_taken h)).visits_lt

theorem prepared_isPrefix (hn : maxBatch ≤ log.readCount)
    (h : (machine build log).run tr = some s) :
    prepared tr <+: (replay log tr).map log.record := by
  obtain ⟨-, e, he⟩ := tracks hn h
  have hbegins := he.visited_isPrefix
  rwa [visited_preparing, taken_preparing] at hbegins

theorem dispatched_isPrefix (hn : maxBatch ≤ log.readCount)
    (h : (machine build log).run tr = some s) :
    dispatched tr <+: (replay log tr).map log.record := by
  obtain ⟨⟨e, he⟩, -⟩ := tracks hn h
  have hbegins := he.visited_isPrefix
  rwa [visited_dispatching, taken_dispatching] at hbegins

/-- **A record is dispatched after its whole batch has been prepared.** -/
theorem prepared_of_dispatch (hn : maxBatch ≤ log.readCount)
    (h : (machine build log).run tr = some s) {a : Nat} {t : Option (Nat × Nat)} {s' : FileThread}
    (hl : step build log s (.dispatch a t) = some s') : a ∈ prepared tr := by
  simp only [step, Option.ite_none_right_eq_some] at hl
  obtain ⟨⟨hp, hi, ha, -⟩, -⟩ := hl
  obtain ⟨⟨e, he⟩, e', he'⟩ := tracks hn h
  have hall := he'.visited_idle (by simp [preparing, toPrepare, hp])
  rw [visited_preparing, taken_preparing] at hall
  have hrest := he.visited
  have hcur := he.cursor
  simp only [dispatching, toDispatch, hp] at hrest hcur
  rw [visited_dispatching, taken_dispatching] at hrest
  rw [hall, ← hrest, ha, hcur, Log.at_readHead]
  refine List.mem_append_right _ (List.mem_map_of_mem ?_)
  rw [List.mem_range'_1]
  omega

end FileThread

/-! ## The program -/

/-- The handler and the dispatcher, the request counter and the arrival times. -/
structure FileProgram where
  handler : RPCHandler
  thread : FileThread
  recvdReqCnt : Nat
  logArr : Nat → Nat

namespace FileProgram

inductive Label
  | handler (l : RPCHandler.Label)
  | thread (l : FileThread.Label)
  deriving DecidableEq, Repr

/-- What a run starts from: the build, the log, and what the memory behind `log_arr` holds. -/
structure Setup where
  build : FileDispatcher.Build
  log : Log
  logArr : Nat → Nat

/-- What a step of the handler does to the shared state. -/
def handlerEffect (s : FileProgram) : RPCHandler.Label → FileProgram
  | .store k t => { s with logArr := Function.update s.logArr k t }
  | .count => { s with recvdReqCnt := (s.recvdReqCnt + 1) % 2 ^ 64 }
  | .stop => s

/-- The thread reads what the handler has written. -/
def Reads (s : FileProgram) : FileThread.Label → Prop
  | .load v _ => v = s.recvdReqCnt
  | .dispatch _ (some (k, t)) => t = s.logArr k
  | _ => True

instance (s : FileProgram) : (l : FileThread.Label) → Decidable (s.Reads l)
  | .load v _ => inferInstanceAs (Decidable (v = s.recvdReqCnt))
  | .dispatch _ (some (k, t)) => inferInstanceAs (Decidable (t = s.logArr k))
  | .dispatch _ none | .stop | .wrap | .prepare _ | .exitPrepare | .prefetch _ | .exitPrefetch
  | .finish => inferInstanceAs (Decidable True)

def step (c : Setup) (s : FileProgram) : Label → Option FileProgram
  | .handler l => do
    let t ← RPCHandler.step c.build.rpcLatency s.handler l
    return { s.handlerEffect l with handler := t }
  | .thread l => do
    let t ← FileThread.step c.build c.log s.thread l
    if s.Reads l then some { s with thread := t } else none

def init (c : Setup) : FileProgram := ⟨⟨.head, 0⟩, FileThread.init c.log, 0, c.logArr⟩

def machine (c : Setup) : Machine FileProgram Label := ⟨init c, step c⟩

def ofThread : Label → Option FileThread.Label
  | .thread l => some l
  | _ => none

def frontEnd (c : Setup) : FrontEnd FileProgram Label where
  machine := machine c
  prepares
    | .thread (.prepare a) => some a
    | _ => none
  dispatches
    | .thread (.dispatch a _) => some a
    | _ => none

variable {c : Setup} {tr : List Label} {s : FileProgram}

theorem thread_run (h : (machine c).run tr = some s) :
    (FileThread.machine c.build c.log).run (tr.filterMap ofThread) = some s.thread := by
  refine Machine.run_project FileProgram.thread ofThread rfl ?_ h
  intro tr s l s' _ hl
  cases l with
  | handler l =>
    simp only [machine, step, Option.pure_def, Option.bind_eq_bind, Option.bind_eq_some_iff,
      Option.some.injEq] at hl
    obtain ⟨t, _, rfl⟩ := hl
    cases l <;> rfl
  | thread l =>
    simp only [machine, step, Option.bind_eq_bind, Option.bind_eq_some_iff,
      Option.ite_none_right_eq_some, Option.some.injEq] at hl
    obtain ⟨t, ht, -, rfl⟩ := hl
    exact ht

theorem prepared_frontEnd (c : Setup) (tr : List Label) :
    (frontEnd c).prepared tr = FileThread.prepared (tr.filterMap ofThread) := by
  rw [FrontEnd.prepared, FileThread.prepared, List.filterMap_filterMap]
  congr 1
  funext l
  rcases l with _ | (_ | _ | _ | _ | _ | _ | _ | _ | _) <;> rfl

theorem dispatched_frontEnd (c : Setup) (tr : List Label) :
    (frontEnd c).dispatched tr = FileThread.dispatched (tr.filterMap ofThread) := by
  rw [FrontEnd.dispatched, FileThread.dispatched, List.filterMap_filterMap]
  congr 1
  funext l
  rcases l with _ | (_ | _ | _ | _ | _ | _ | _ | _ | _) <;> rfl

/-- The records of the batches taken. -/
def replay (c : Setup) (tr : List Label) : List Nat :=
  FileThread.replay c.log (tr.filterMap ofThread)

/-- **What the program serves**: the replay of its batches, as far as it has got. -/
theorem serves (hn : maxBatch ≤ c.log.readCount) (h : (machine c).run tr = some s) :
    ∃ es, es <+: replay c tr ∧ (frontEnd c).Serves c.log es tr := by
  have hrun := thread_run h
  obtain ⟨es, hes, hdisp⟩ :=
    FrontEnd.eq_map_of_isPrefix_map (FileThread.dispatched_isPrefix hn hrun)
  obtain ⟨ks, hks, hprep⟩ :=
    FrontEnd.eq_map_of_isPrefix_map (FileThread.prepared_isPrefix hn hrun)
  have hlt := FileThread.replay_lt hn hrun
  refine ⟨es, hes, (dispatched_frontEnd c tr).trans hdisp, fun k hk => hlt k (hes.subset hk),
    ⟨ks, fun k hk => hlt k (hks.subset hk), (prepared_frontEnd c tr).trans hprep⟩, ?_⟩
  rintro pre l post a rfl hl
  obtain ⟨s₀, s₁, hpre, hstep, -⟩ := Machine.run_split h
  rw [prepared_frontEnd]
  rcases l with _ | (_ | _ | _ | _ | _ | _ | _ | ⟨a', t⟩ | _)
  case thread.dispatch =>
    obtain rfl := Option.some.inj hl
    simp only [machine, step, Option.bind_eq_bind, Option.bind_eq_some_iff] at hstep
    obtain ⟨u, hu, -⟩ := hstep
    exact FileThread.prepared_of_dispatch hn (thread_run hpre) hu
  all_goals cases hl

end FileProgram

end Doradd
