import Doradd.Lib.Work
import Doradd.Dispatcher.FileThread

/-!
# The single-threaded dispatcher gets everything done

In the build without `CORE_PIPE` the thread polls the request counter; every other step of
it is work on some batch.  With `RPC_LATENCY` it leaves its loop when the log of arrival
times is full, and then there are no more requests to come.

* `file_accounting`: what has been counted, taken and dispatched;
* `file_drains`: a run holds at most 8 steps of work for each request, and work alone brings
  it to where everything that was received has been dispatched.
-/

namespace Doradd

open Lib

namespace FileThread

/-- A step that does not merely find that there is no request. -/
def works : Label → Bool
  | .load _ none => false
  | _ => true

/-- The batch in hand, which `handled_req_cnt` does not count yet. -/
def inHand (s : FileThread) : Nat :=
  match s.pc with
  | .prepare | .prefetch | .dispatch => s.lookAhead
  | .head | .check | .done => 0

/-- The steps left for the batch in hand, until the next one can be taken. -/
def left (s : FileThread) : Nat :=
  match s.pc with
  | .head => 1
  | .check => 0
  | .prepare => (s.lookAhead - s.i) + 2 * s.lookAhead + 4
  | .prefetch => (s.lookAhead - s.i) + s.lookAhead + 3
  | .dispatch => (s.lookAhead - s.i) + 2
  | .done => 0

variable {build : FileDispatcher.Build} {log : Log} {tr : List Label} {s s' : FileThread}
  {l : Label}

theorem left_step (hl : step build log s l = some s') :
    s'.left + (works l).toNat ≤ s.left + 8 * (taken [l]).sum := by
  rcases l with _ | _ | ⟨v, _ | b⟩ | a | _ | a | _ | ⟨a, t⟩ | _ <;>
    simp only [step, Option.ite_none_right_eq_some, Option.some.injEq] at hl
  case stop | wrap =>
    obtain ⟨⟨hp, -⟩, rfl⟩ := hl
    simp [left, hp, works]
  case load.none =>
    obtain ⟨-, rfl⟩ := hl
    simp [works]
  case load.some =>
    obtain ⟨⟨hp, hb⟩, rfl⟩ := hl
    have hpos := (checkAvailCnts_spec hb).1
    simp only [left, hp, taken, works, List.filterMap_cons, List.filterMap_nil, List.sum_cons,
      List.sum_nil, Bool.toNat_true]
    omega
  case exitPrepare =>
    obtain ⟨⟨hp, hi⟩, rfl⟩ := hl
    cases hb : build.prefetch <;>
      · simp only [left, hp, works, if_true, Bool.false_eq_true, if_false, Bool.toNat_true]
        omega
  case exitPrefetch | finish =>
    obtain ⟨⟨hp, hi⟩, rfl⟩ := hl
    simp only [left, hp, works, Bool.toNat_true]
    omega
  all_goals
    obtain ⟨⟨hp, hi, -⟩, rfl⟩ := hl
    simp only [left, hp, works, Bool.toNat_true]
    omega

/-! ## Counting -/

theorem taken_append (tr tr' : List Label) : taken (tr ++ tr') = taken tr ++ taken tr' :=
  List.filterMap_append

/-- `handled_req_cnt` counts the batches that are finished. -/
theorem handledReqCnt_eq (h : (machine build log).run tr = some s) :
    ∃ n, s.self.handledReqCnt = n % 2 ^ 64 ∧ n + s.inHand = (taken tr).sum := by
  refine Machine.run_induction (P := fun tr s =>
    ∃ n, s.self.handledReqCnt = n % 2 ^ 64 ∧ n + s.inHand = (taken tr).sum)
    ⟨0, (Nat.zero_mod _).symm, rfl⟩ ?_ h
  rintro tr s l s' _ ⟨n, hn, hsum⟩ hl
  rw [taken_append, List.sum_append, ← hsum]
  rcases l with _ | _ | ⟨v, _ | b⟩ | a | _ | a | _ | ⟨a, t⟩ | _ <;>
    simp only [machine, step, Option.ite_none_right_eq_some, Option.some.injEq] at hl
  case wrap =>
    obtain ⟨⟨hp, -⟩, rfl⟩ := hl
    refine ⟨n, ?_, by simp [inHand, hp, taken]⟩
    unfold FileDispatcher.rewind
    split <;> exact hn
  case load.none =>
    obtain ⟨-, rfl⟩ := hl
    exact ⟨n, hn, rfl⟩
  case exitPrepare =>
    obtain ⟨⟨hp, -⟩, rfl⟩ := hl
    refine ⟨n, hn, ?_⟩
    cases hb : build.prefetch <;> simp [inHand, hp, taken]
  case finish =>
    obtain ⟨⟨hp, -⟩, rfl⟩ := hl
    refine ⟨n + s.lookAhead, ?_, by simp [inHand, hp, taken]⟩
    show (s.self.handledReqCnt + s.lookAhead) % 2 ^ 64 = _
    rw [hn, Nat.mod_add_mod]
  all_goals
    obtain ⟨⟨hp, -⟩, rfl⟩ := hl
    exact ⟨n, hn, by simp [inHand, hp, taken]⟩

/-- In the build with `RPC_LATENCY`, `txn_log_id` counts the dispatches. -/
theorem txnLogId_eq (hb : build.rpcLatency = true) (h : (machine build log).run tr = some s) :
    s.self.txnLogId = (dispatched tr).length := by
  refine Machine.run_induction (P := fun tr s => s.self.txnLogId = (dispatched tr).length)
    rfl ?_ h
  intro tr s l s' _ ih hl
  rw [dispatched] at ih ⊢
  rw [List.filterMap_append, List.length_append]
  rcases l with _ | _ | ⟨v, _ | b⟩ | a | _ | a | _ | ⟨a, t⟩ | _ <;>
    simp only [machine, step, Option.ite_none_right_eq_some, Option.some.injEq] at hl
  case wrap =>
    obtain ⟨-, rfl⟩ := hl
    unfold FileDispatcher.rewind
    split <;> exact ih
  case dispatch =>
    obtain ⟨-, rfl⟩ := hl
    show (if build.rpcLatency = true then s.self.txnLogId + 1 else s.self.txnLogId) = _
    rw [if_pos hb, ih]
    rfl
  all_goals
    obtain ⟨-, rfl⟩ := hl
    exact ih

theorem length_dispatched (h : (machine build log).run tr = some s) :
    (dispatched tr).length + s.toDispatch = (taken tr).sum := by
  have hlen := Walker.length_visited (dispatching_walks h)
  rwa [visited_dispatching, taken_dispatching] at hlen

theorem logFull_of_done (h : (machine build log).run tr = some s) (hp : s.pc = .done) :
    logFull build s := by
  revert hp
  refine Machine.run_induction (P := fun _ s => s.pc = .done → logFull build s)
    (by intro hp; cases hp) ?_ h
  intro tr s l s' _ ih hl hp
  rcases l with _ | _ | ⟨v, _ | b⟩ | a | _ | a | _ | ⟨a, t⟩ | _ <;>
    simp only [machine, step, Option.ite_none_right_eq_some, Option.some.injEq] at hl
  case stop =>
    obtain ⟨⟨-, hfull⟩, rfl⟩ := hl
    exact hfull
  case load.none =>
    obtain ⟨-, rfl⟩ := hl
    exact ih hp
  case exitPrepare =>
    obtain ⟨-, rfl⟩ := hl
    cases hb : build.prefetch <;> simp [hb] at hp
  all_goals
    obtain ⟨⟨hq, -⟩, rfl⟩ := hl
    simp_all

end FileThread

namespace FileProgram

/-- A step of the dispatcher that is not just a poll. -/
def works : Label → Bool
  | .handler _ => false
  | .thread l => FileThread.works l

/-- The requests that the dispatcher can see and has not taken. -/
def waiting (s : FileProgram) : Nat :=
  wsub 64 s.recvdReqCnt s.thread.self.handledReqCnt - s.thread.inHand

def left (s : FileProgram) : Nat := 8 * s.waiting + s.thread.left

/-- Nothing is in hand or waiting to be taken. -/
structure Idle (s : FileProgram) : Prop where
  waiting : s.waiting = 0
  thread : s.thread.pc = .check ∨ s.thread.pc = .done

/-- The number of requests counted. -/
def received (tr : List Label) : Nat := tr.count (.handler .count)

def ofHandler : Label → Option RPCHandler.Label
  | .handler l => some l
  | _ => none

def taken (tr : List Label) : List Nat := FileThread.taken (tr.filterMap ofThread)

def dispatched (tr : List Label) : List Nat := FileThread.dispatched (tr.filterMap ofThread)

variable {c : Setup} {tr : List Label} {s s' : FileProgram}

theorem step_handler {l : RPCHandler.Label} :
    step c s (.handler l) = some s' ↔ ∃ t, RPCHandler.step c.build.rpcLatency s.handler l = some t ∧
      { s.handlerEffect l with handler := t } = s' := by
  simp [step, Option.bind_eq_some_iff]

theorem step_thread {l : FileThread.Label} :
    step c s (.thread l) = some s' ↔ ∃ t, FileThread.step c.build c.log s.thread l = some t ∧
      s.Reads l ∧ { s with thread := t } = s' := by
  simp [step, Option.bind_eq_some_iff]

theorem received_append (tr tr' : List Label) :
    received (tr ++ tr') = received tr + received tr' := List.count_append

theorem taken_append (tr tr' : List Label) : taken (tr ++ tr') = taken tr ++ taken tr' := by
  rw [taken, List.filterMap_append, FileThread.taken_append]
  rfl

theorem handler_run (h : (machine c).run tr = some s) :
    (RPCHandler.machine c.build.rpcLatency).run (tr.filterMap ofHandler) = some s.handler := by
  refine Machine.run_project FileProgram.handler ofHandler rfl ?_ h
  intro tr s l s' _ hl
  cases l with
  | handler l => obtain ⟨t, ht, rfl⟩ := step_handler.mp hl; exact ht
  | thread l => obtain ⟨t, -, -, rfl⟩ := step_thread.mp hl; rfl

/-! ## Counting -/

theorem received_eq (tr : List Label) :
    received tr = RPCHandler.counted (tr.filterMap ofHandler) := by
  induction tr with
  | nil => rfl
  | cons l tr ih =>
    rw [← List.singleton_append, received_append, List.filterMap_append,
      RPCHandler.counted_append, ih]
    rcases l with (_ | _ | _) | _ <;> rfl

theorem recvdReqCnt_eq (h : (machine c).run tr = some s) :
    s.recvdReqCnt = received tr % 2 ^ 64 := by
  refine Machine.run_induction (P := fun tr s => s.recvdReqCnt = received tr % 2 ^ 64)
    (by rfl) ?_ h
  intro tr s l s' _ ih hl
  rw [received_append]
  cases l with
  | handler l =>
    obtain ⟨t, -, rfl⟩ := step_handler.mp hl
    cases l with
    | count =>
      show (s.recvdReqCnt + 1) % 2 ^ 64 = _
      rw [ih, Nat.mod_add_mod]
      rfl
    | _ => exact ih
  | thread l => obtain ⟨t, -, -, rfl⟩ := step_thread.mp hl; exact ih

/-- The dispatcher never takes a request that has not been counted. -/
theorem taken_le_received (h : (machine c).run tr = some s) : (taken tr).sum ≤ received tr := by
  refine Machine.run_induction (P := fun tr _ => (taken tr).sum ≤ received tr)
    (Nat.zero_le _) ?_ h
  intro tr s l s' hrun ih hl
  rw [received_append, taken_append, List.sum_append]
  rcases l with l | (_ | _ | ⟨v, _ | b⟩ | _ | _ | _ | _ | _ | _)
  case thread.load.some =>
    obtain ⟨t, ht, hv, -⟩ := step_thread.mp hl
    simp only [FileThread.step, Option.ite_none_right_eq_some] at ht
    obtain ⟨n, hn, hsum⟩ := FileThread.handledReqCnt_eq (thread_run hrun)
    rw [FileThread.inHand, ht.1.1, Nat.add_zero] at hsum
    have hle := (checkAvailCnts_spec ht.1.2).2.2
    have hn' : n ≤ received tr := hsum ▸ ih
    rw [show v = s.recvdReqCnt from hv, recvdReqCnt_eq hrun, hn] at hle
    have hb : b ≤ received tr - n := Nat.le_trans hle (wsub_mod_le hn')
    have hone : (taken [.thread (.load v (some b))]).sum = b := rfl
    have hzero : received [.thread (.load v (some b))] = 0 := rfl
    have hall : (taken tr).sum = n := hsum.symm
    omega
  all_goals exact Nat.le_trans ih (Nat.le_add_right _ _)

/-- What waits is what has been counted and not been taken. -/
theorem waiting_eq (h : (machine c).run tr = some s) (hlt : received tr < 2 ^ 64) :
    s.waiting = received tr - (taken tr).sum := by
  obtain ⟨n, hn, hsum⟩ := FileThread.handledReqCnt_eq (thread_run h)
  have hle := taken_le_received h
  rw [taken] at hle ⊢
  rw [waiting, recvdReqCnt_eq h, hn, wsub_mod (by omega), Nat.mod_eq_of_lt (by omega)]
  omega

/-- In the `RPC_LATENCY` build the handler stops when the log is full. -/
theorem received_le (hb : c.build.rpcLatency = true) (h : (machine c).run tr = some s) :
    received tr ≤ rpcLogSize := by
  have hr := handler_run h
  rw [hb] at hr
  have hi := RPCHandler.inv hr
  have hbound := hi.bound
  have hcnt := hi.counted
  rw [← received_eq] at hcnt
  omega

/-- **What has been counted, taken and dispatched.** -/
theorem file_accounting (h : (machine c).run tr = some s) :
    (dispatched tr).length + s.thread.toDispatch = (taken tr).sum ∧
      (taken tr).sum ≤ received tr :=
  ⟨FileThread.length_dispatched (thread_run h), taken_le_received h⟩

/-- The dispatcher leaves its loop only in the build with `RPC_LATENCY`, when everything has
been dispatched and the handler has no more requests to count. -/
theorem no_more_of_done (h : (machine c).run tr = some s) (hp : s.thread.pc = .done) :
    c.build.rpcLatency = true ∧ (dispatched tr).length = received tr ∧
      ∀ tr' s', (machine c).run (tr ++ tr') = some s' → received (tr ++ tr') = received tr := by
  obtain ⟨hb, hfull⟩ := FileThread.logFull_of_done (thread_run h) hp
  rw [FileThread.txnLogId_eq hb (thread_run h)] at hfull
  obtain ⟨hlen, hle⟩ := file_accounting h
  have hcap := received_le hb h
  have hdisp : (dispatched tr).length = (FileThread.dispatched (tr.filterMap ofThread)).length :=
    rfl
  refine ⟨hb, by omega, fun tr' s' h' => ?_⟩
  have hcap' := received_le hb h'
  rw [received_append] at hcap' ⊢
  omega

/-! ## Every step of work -/

theorem left_step {l : Label} (h : (machine c).run tr = some s)
    (hlt : received (tr ++ [l]) < 2 ^ 64) (hl : step c s l = some s') :
    s'.left + (works l).toNat ≤ s.left + 8 * received [l] := by
  have hrun := ((machine c).run_snoc tr l s').mpr ⟨s, h, hl⟩
  have hwait' := waiting_eq hrun hlt
  have hle' := taken_le_received hrun
  rw [received_append] at hlt hwait' hle'
  have hwait := waiting_eq h (by omega)
  rw [taken_append, List.sum_append] at hwait' hle'
  have hthread : s'.thread.left + (works l).toNat ≤ s.thread.left + 8 * (taken [l]).sum := by
    cases l with
    | handler l =>
      obtain ⟨t, -, rfl⟩ := step_handler.mp hl
      cases l <;> exact Nat.le_refl _
    | thread l =>
      obtain ⟨t, ht, -, rfl⟩ := step_thread.mp hl
      exact FileThread.left_step ht
  rw [left, left, hwait, hwait']
  omega

/-! ## The thread can work -/

/-- The thread can take a step of work. -/
def CanWork (c : Setup) (s : FileProgram) : Prop := ∃ l s', works l ∧ step c s l = some s'

theorem canWork_of_step {l : FileThread.Label} {t : FileThread} (hw : FileThread.works l)
    (ht : FileThread.step c.build c.log s.thread l = some t) (hr : s.Reads l) : CanWork c s :=
  ⟨.thread l, _, hw, step_thread.mpr ⟨t, ht, hr, rfl⟩⟩

theorem canWork_dispatch (hp : s.thread.pc = .dispatch) : CanWork c s := by
  by_cases hi : s.thread.i < s.thread.lookAhead
  · cases hb : c.build.rpcLatency with
    | false =>
      exact canWork_of_step (l := .dispatch _ none) rfl
        (if_pos ⟨hp, hi, rfl, by rw [hb]; rfl⟩) trivial
    | true =>
      exact canWork_of_step
        (l := .dispatch _ (some (s.thread.self.txnLogId, s.logArr s.thread.self.txnLogId))) rfl
        (if_pos ⟨hp, hi, rfl, by rw [hb]; rfl⟩) rfl
  · exact canWork_of_step (l := .finish) rfl (if_pos ⟨hp, hi⟩) trivial

/-- **The thread can work, or there is nothing to do.** -/
theorem works_or_idle (h : (machine c).run tr = some s) (hlt : received tr < 2 ^ 64) :
    CanWork c s ∨ s.Idle := by
  cases hp : s.thread.pc with
  | head =>
    by_cases hfull : FileThread.logFull c.build s.thread
    · exact Or.inl (canWork_of_step (l := .stop) rfl (if_pos ⟨hp, hfull⟩) trivial)
    · exact Or.inl (canWork_of_step (l := .wrap) rfl (if_pos ⟨hp, hfull⟩) trivial)
  | check =>
    rcases Nat.eq_zero_or_pos s.waiting with hzero | hpos
    · exact Or.inr ⟨hzero, Or.inl hp⟩
    · obtain ⟨b, hb⟩ := exists_checkAvailCnts (Nat.lt_of_lt_of_le hpos (Nat.sub_le _ _))
      exact Or.inl (canWork_of_step (l := .load _ (some b)) rfl (if_pos ⟨hp, hb⟩) rfl)
  | prepare =>
    by_cases hi : s.thread.i < s.thread.lookAhead
    · exact Or.inl (canWork_of_step (l := .prepare _) rfl (if_pos ⟨hp, hi, rfl⟩) trivial)
    · exact Or.inl (canWork_of_step (l := .exitPrepare) rfl (if_pos ⟨hp, hi⟩) trivial)
  | prefetch =>
    by_cases hi : s.thread.i < s.thread.lookAhead
    · exact Or.inl (canWork_of_step (l := .prefetch _) rfl (if_pos ⟨hp, hi, rfl⟩) trivial)
    · exact Or.inl (canWork_of_step (l := .exitPrefetch) rfl (if_pos ⟨hp, hi⟩) trivial)
  | dispatch => exact Or.inl (canWork_dispatch hp)
  | done =>
    have hall := (no_more_of_done h hp).2.1
    obtain ⟨hlen, hle⟩ := file_accounting h
    have hwait := waiting_eq h hlt
    exact Or.inr ⟨by omega, Or.inr hp⟩

/-- When nothing is left, everything that was received has been dispatched. -/
theorem Idle.length_dispatched (hi : s.Idle) (h : (machine c).run tr = some s)
    (hlt : received tr < 2 ^ 64) : (dispatched tr).length = received tr := by
  have hwait := waiting_eq h hlt
  obtain ⟨hlen, hle⟩ := file_accounting h
  have hzero : s.thread.toDispatch = 0 := by
    rcases hi.thread with hp | hp <;> simp [FileThread.toDispatch, hp]
  rw [hi.waiting] at hwait
  omega

/-! ## Draining -/

theorem metered (c : Setup) :
    (machine c).Metered (.handler .count) (2 ^ 64) 8 works left Idle
      fun tr => (dispatched tr).length where
  not_works := rfl
  spends := fun _ _ _ _ => left_step
  works_or_idle := fun _ _ => works_or_idle
  done_of_idle := fun _ _ h hlt hidle => hidle.length_dispatched h hlt

end FileProgram

end Doradd
