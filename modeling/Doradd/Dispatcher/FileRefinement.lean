import Doradd.Dispatcher.FileDraining

/-!
# The thread of FileDispatcher refines `FileDispatcher.run`

`FileDispatcher.run` takes a batch at a time, and is what the pipeline is compared with;
`FileThread` takes a step at a time, next to the handler and the workers.  From every state
the rest of the batch in hand can be computed, and each step does some of it.

* `rest_step`: a step of a batch does the first of what is left of it;
* `thread_refines`: at the head of its loop the thread is where `run` is with the batches
  taken, and has made the same calls; elsewhere it has made the first of them;
* `run_realised`: some run of the thread does what `run` does.
-/

namespace Doradd

open Lib

/-! ## One more batch -/

namespace FileDispatcher

variable {build : Build} {log : Log}

/-- `txn_log_id >= RPC_LOG_SIZE` -/
def logFull (build : Build) (s : FileDispatcher) : Prop :=
  build.rpcLatency = true ∧ rpcLogSize ≤ s.txnLogId

theorem run_of_full {s : FileDispatcher} (hs : logFull build s) (bs : List Nat) :
    run build log bs s = (s, []) := by
  cases bs with
  | nil => rfl
  | cons b bs => exact if_pos hs

theorem run_cons {s : FileDispatcher} (hs : ¬ logFull build s) (b : Nat) (bs : List Nat) :
    run build log (b :: bs) s =
      ((run build log bs (dispatchBatch build log b s).1).1,
        (dispatchBatch build log b s).2 ++ (run build log bs (dispatchBatch build log b s).1).2) :=
  if_neg hs

/-- A full log ends the run. -/
theorem run_snoc_of_full (bs : List Nat) (b : Nat) {s : FileDispatcher}
    (h : logFull build (run build log bs s).1) :
    run build log (bs ++ [b]) s = run build log bs s := by
  induction bs generalizing s with
  | nil => exact run_of_full h [b]
  | cons b' bs ih =>
    by_cases hs : logFull build s
    · rw [run_of_full hs, run_of_full hs]
    · rw [run_cons hs] at h
      rw [List.cons_append, run_cons hs, run_cons hs, ih h]

/-- Otherwise the next batch is dispatched after the others. -/
theorem run_snoc (bs : List Nat) (b : Nat) {s : FileDispatcher}
    (h : ¬ logFull build (run build log bs s).1) :
    run build log (bs ++ [b]) s =
      ((dispatchBatch build log b (run build log bs s).1).1,
        (run build log bs s).2 ++ (dispatchBatch build log b (run build log bs s).1).2) := by
  induction bs generalizing s with
  | nil => simp [run_cons (show ¬ logFull build s from h), run]
  | cons b' bs ih =>
    by_cases hs : logFull build s
    · rw [run_of_full hs] at h
      exact absurd hs h
    · rw [run_cons hs] at h
      rw [List.cons_append, run_cons hs, run_cons hs, ih h, List.append_assoc]

end FileDispatcher

namespace FileThread

open FileDispatcher (Event)

/-! ## The rest of a batch -/

/-- The call that a step makes. -/
def event : Label → Option Event
  | .prepare a => some (.prepare a)
  | .prefetch a => some (.prefetch a)
  | .dispatch a _ => some (.dispatch a)
  | _ => none

def events (tr : List Label) : List Event := tr.filterMap event

variable {build : FileDispatcher.Build} {log : Log}

/-- `n` iterations of a loop body, and then what follows them. -/
def loopThen (body : FileDispatcher → FileDispatcher × Event) (n : Nat)
    (next : FileDispatcher → FileDispatcher × List Event) (d : FileDispatcher) :
    FileDispatcher × List Event :=
  let (d₁, es₁) := FileDispatcher.loop body n d
  let (d₂, es₂) := next d₁
  (d₂, es₁ ++ es₂)

def finishBatch (lookAhead : Nat) (d : FileDispatcher) : FileDispatcher × List Event :=
  ({ d with handledReqCnt := (d.handledReqCnt + lookAhead) % 2 ^ 64 }, [])

/-- The end of `dispatch_batch`, with `n` records still to be dispatched. -/
def restDispatch (build : FileDispatcher.Build) (log : Log) (lookAhead n : Nat) :
    FileDispatcher → FileDispatcher × List Event :=
  loopThen (FileDispatcher.dispatchOne build log) n (finishBatch lookAhead)

/-- The end of `dispatch_batch`, with `n` records still to be prefetched. -/
def restPrefetch (build : FileDispatcher.Build) (log : Log) (lookAhead n : Nat) :
    FileDispatcher → FileDispatcher × List Event :=
  loopThen (FileDispatcher.prefetchOne log) n (restDispatch build log lookAhead lookAhead)

/-- The end of `dispatch_batch`, with `n` records still to be prepared. -/
def restPrepare (build : FileDispatcher.Build) (log : Log) (lookAhead n : Nat) :
    FileDispatcher → FileDispatcher × List Event :=
  loopThen (FileDispatcher.prepareOne log) n
    (if build.prefetch then restPrefetch build log lookAhead lookAhead
      else restDispatch build log lookAhead lookAhead)

/-- What is left of the batch in hand. -/
def rest (build : FileDispatcher.Build) (log : Log) (s : FileThread) :
    FileDispatcher × List Event :=
  match s.pc with
  | .prepare => restPrepare build log s.lookAhead (s.lookAhead - s.i) s.self
  | .prefetch => restPrefetch build log s.lookAhead (s.lookAhead - s.i) s.self
  | .dispatch => restDispatch build log s.lookAhead (s.lookAhead - s.i) s.self
  | .head | .check | .done => (s.self, [])

theorem loopThen_zero (body : FileDispatcher → FileDispatcher × Event)
    (next : FileDispatcher → FileDispatcher × List Event) (d : FileDispatcher) :
    loopThen body 0 next d = next d := rfl

theorem loopThen_succ (body : FileDispatcher → FileDispatcher × Event) (n : Nat)
    (next : FileDispatcher → FileDispatcher × List Event) (d : FileDispatcher) :
    loopThen body (n + 1) next d =
      ((loopThen body n next (body d).1).1, (body d).2 :: (loopThen body n next (body d).1).2) :=
  rfl

/-- A batch is the rewinding, and the rest of the batch. -/
theorem dispatchBatch_eq (b : Nat) (d : FileDispatcher) :
    d.dispatchBatch build log b = restPrepare build log b b (d.rewind log) := by
  unfold FileDispatcher.dispatchBatch restPrepare restPrefetch restDispatch
  cases build.prefetch <;> simp [loopThen, finishBatch]

variable {tr : List Label} {s s' : FileThread} {l : Label}

def InBatch (s : FileThread) : Prop := s.pc = .prepare ∨ s.pc = .prefetch ∨ s.pc = .dispatch

/-- A step of a batch takes no other batch, and leads on in the batch or to the head. -/
theorem InBatch.step (hs : s.InBatch) (hl : step build log s l = some s') :
    taken [l] = [] ∧ works l ∧ s'.pc ≠ .check ∧ s'.pc ≠ .done := by
  rcases l with _ | _ | ⟨v, _ | b⟩ | a | _ | a | _ | ⟨a, t⟩ | _ <;>
    simp only [FileThread.step, Option.ite_none_right_eq_some, Option.some.injEq] at hl
  case exitPrepare =>
    obtain ⟨-, rfl⟩ := hl
    cases hb : build.prefetch <;> simp [taken, works]
  all_goals
    obtain ⟨⟨hq, -⟩, rfl⟩ := hl
    simp [InBatch, taken, works, hq] at hs ⊢

/-- **One step of a batch** does the first of what is left. -/
theorem rest_step (hs : s.InBatch) (hl : step build log s l = some s') :
    s.rest build log = ((s'.rest build log).1, events [l] ++ (s'.rest build log).2) := by
  have hnext : s.i < s.lookAhead → s.lookAhead - s.i = s.lookAhead - (s.i + 1) + 1 := by omega
  have hlast : ¬ s.i < s.lookAhead → s.lookAhead - s.i = 0 := by omega
  rcases l with _ | _ | ⟨v, _ | b⟩ | a | _ | a | _ | ⟨a, t⟩ | _ <;>
    simp only [step, Option.ite_none_right_eq_some, Option.some.injEq] at hl
  case prepare =>
    obtain ⟨⟨hq, hi, rfl⟩, rfl⟩ := hl
    simp only [rest, hq]
    rw [hnext hi, restPrepare, loopThen_succ]
    rfl
  case exitPrepare =>
    obtain ⟨⟨hq, hi⟩, rfl⟩ := hl
    simp only [rest, hq]
    rw [hlast hi, restPrepare, loopThen_zero]
    cases build.prefetch <;> rfl
  case prefetch =>
    obtain ⟨⟨hq, hi, rfl⟩, rfl⟩ := hl
    simp only [rest, hq]
    rw [hnext hi, restPrefetch, loopThen_succ]
    rfl
  case exitPrefetch =>
    obtain ⟨⟨hq, hi⟩, rfl⟩ := hl
    simp only [rest, hq]
    rw [hlast hi, restPrefetch, loopThen_zero]
    rfl
  case dispatch =>
    obtain ⟨⟨hq, hi, rfl, -⟩, rfl⟩ := hl
    simp only [rest, hq]
    rw [hnext hi, restDispatch, loopThen_succ]
    rfl
  case finish =>
    obtain ⟨⟨hq, hi⟩, rfl⟩ := hl
    simp only [rest, hq]
    rw [hlast hi, restDispatch, loopThen_zero]
    rfl
  all_goals
    obtain ⟨⟨hq, -⟩, -⟩ := hl
    simp [InBatch, hq] at hs

/-! ## Refinement -/

theorem events_append (tr tr' : List Label) : events (tr ++ tr') = events tr ++ events tr' :=
  List.filterMap_append

/-- A step that neither takes a batch nor makes a call. -/
theorem silent (tr : List Label) (ht : taken [l] = []) (he : events [l] = []) :
    taken (tr ++ [l]) = taken tr ∧ events (tr ++ [l]) = events tr := by
  rw [taken_append, events_append, ht, he, List.append_nil, List.append_nil]
  exact ⟨rfl, rfl⟩

/-- `run` with the batches taken ends where the thread will be after the batch in hand, and
makes the calls that the thread has made and those that it still has to make. -/
structure Refines (build : FileDispatcher.Build) (log : Log) (tr : List Label)
    (s : FileThread) : Prop where
  run_eq : s.pc ≠ .check → FileDispatcher.run build log (taken tr) (.init log) =
    ((s.rest build log).1, events tr ++ (s.rest build log).2)
  /-- A thread that waits for a batch has rewound for it already. -/
  rewound : s.pc = .check → ∃ d : FileDispatcher, ¬ d.logFull build ∧ s.self = d.rewind log ∧
    FileDispatcher.run build log (taken tr) (.init log) = (d, events tr)

namespace Refines

/-- The thread has made the first calls of `run`. -/
theorem events_isPrefix (h : Refines build log tr s) :
    events tr <+: (FileDispatcher.run build log (taken tr) (.init log)).2 := by
  by_cases hp : s.pc = .check
  · obtain ⟨d, -, -, hrun⟩ := h.rewound hp
    exact ⟨[], by rw [hrun, List.append_nil]⟩
  · rw [h.run_eq hp]
    exact List.prefix_append _ _

/-- With no batch in hand it is where `run` ends. -/
theorem run_eq_self (h : Refines build log tr s) (hp : s.pc = .head ∨ s.pc = .done) :
    FileDispatcher.run build log (taken tr) (.init log) = (s.self, events tr) := by
  rcases hp with hp | hp <;>
    simpa [rest, hp] using h.run_eq (by simp [hp])

theorem step_inBatch (h : Refines build log tr s) (hs : s.InBatch)
    (hl : FileThread.step build log s l = some s') : Refines build log (tr ++ [l]) s' := by
  obtain ⟨htaken, -, hcheck, -⟩ := hs.step hl
  refine ⟨fun _ => ?_, fun hp => absurd hp hcheck⟩
  have hp : s.pc ≠ .check := by
    rcases hs with hp | hp | hp <;> simp [hp]
  rw [taken_append, htaken, List.append_nil, h.run_eq hp, rest_step hs hl, events_append,
    List.append_assoc]

/-- **Step lemma.** -/
theorem step (h : Refines build log tr s) (hl : FileThread.step build log s l = some s') :
    Refines build log (tr ++ [l]) s' := by
  by_cases hs : s.InBatch
  · exact h.step_inBatch hs hl
  -- the steps at the head of the loop and at the request counter
  rcases l with _ | _ | ⟨v, _ | b⟩ | a | _ | a | _ | ⟨a, t⟩ | _ <;>
    simp only [FileThread.step, Option.ite_none_right_eq_some, Option.some.injEq] at hl
  case stop =>
    obtain ⟨⟨hp, -⟩, rfl⟩ := hl
    obtain ⟨htaken, hevents⟩ := silent tr (l := .stop) rfl rfl
    refine ⟨fun _ => ?_, by rintro ⟨⟩⟩
    rw [htaken, hevents, h.run_eq_self (Or.inl hp)]
    simp [rest]
  case wrap =>
    obtain ⟨⟨hp, hfull⟩, rfl⟩ := hl
    obtain ⟨htaken, hevents⟩ := silent tr (l := .wrap) rfl rfl
    refine ⟨fun hne => absurd rfl hne, fun _ => ⟨s.self, hfull, rfl, ?_⟩⟩
    rw [htaken, hevents, h.run_eq_self (Or.inl hp)]
  case load.none =>
    obtain ⟨-, rfl⟩ := hl
    obtain ⟨htaken, hevents⟩ := silent tr (l := .load v none) rfl rfl
    exact ⟨by rw [htaken, hevents]; exact h.run_eq, by rw [htaken, hevents]; exact h.rewound⟩
  case load.some =>
    -- the whole batch is left, and its rewinding is done
    obtain ⟨⟨hp, -⟩, rfl⟩ := hl
    obtain ⟨d, hfull, hself, hrun⟩ := h.rewound hp
    have hone : taken [.load v (some b)] = [b] := rfl
    have hnone : events [.load v (some b)] = [] := rfl
    refine ⟨fun _ => ?_, by rintro ⟨⟩⟩
    rw [taken_append, hone, FileDispatcher.run_snoc _ _ (by rw [hrun]; exact hfull), hrun,
      dispatchBatch_eq, ← hself, events_append, hnone, List.append_nil]
    rfl
  all_goals
    obtain ⟨⟨hp, -⟩, -⟩ := hl
    simp [InBatch, hp] at hs

end Refines

theorem refines (h : (machine build log).run tr = some s) : Refines build log tr s :=
  Machine.run_induction (P := Refines build log) ⟨fun _ => rfl, by rintro ⟨⟩⟩
    (fun _ _ _ _ _ ih hl => ih.step hl) h

/-- **Refinement.**  At the head of its loop, and after it, the thread is where
`FileDispatcher.run` ends with the batches taken, and has made the same calls in the same
order; at any time it has made the first of them. -/
theorem thread_refines (h : (machine build log).run tr = some s) :
    events tr <+: (FileDispatcher.run build log (taken tr) (.init log)).2 ∧
    (s.pc = .head ∨ s.pc = .done →
      FileDispatcher.run build log (taken tr) (.init log) = (s.self, events tr)) :=
  ⟨(refines h).events_isPrefix, (refines h).run_eq_self⟩

/-! ## Every run is one of the thread -/

/-- Within a batch the thread can go on. -/
theorem InBatch.exists_step (build : FileDispatcher.Build) (log : Log) (hs : s.InBatch) :
    ∃ l s', FileThread.step build log s l = some s' := by
  by_cases hi : s.i < s.lookAhead
  · rcases hs with hp | hp | hp
    · exact ⟨.prepare _, _, if_pos ⟨hp, hi, rfl⟩⟩
    · exact ⟨.prefetch _, _, if_pos ⟨hp, hi, rfl⟩⟩
    · refine ⟨.dispatch _ (if build.rpcLatency then some (s.self.txnLogId, 0) else none), _,
        if_pos ⟨hp, hi, rfl, ?_⟩⟩
      cases build.rpcLatency <;> rfl
  · rcases hs with hp | hp | hp
    · exact ⟨.exitPrepare, _, if_pos ⟨hp, hi⟩⟩
    · exact ⟨.exitPrefetch, _, if_pos ⟨hp, hi⟩⟩
    · exact ⟨.finish, _, if_pos ⟨hp, hi⟩⟩

/-- The batch in hand comes to its end. -/
theorem exists_finish (build : FileDispatcher.Build) (log : Log) (hc : s.pc ≠ .check)
    (hd : s.pc ≠ .done) :
    ∃ ls s', (machine build log).runFrom s ls = some s' ∧ s'.pc = .head ∧ taken ls = [] := by
  induction hn : s.left using Nat.strongRecOn generalizing s with
  | ind n ih =>
    by_cases hp : s.pc = .head
    · exact ⟨[], s, rfl, hp, rfl⟩
    have hs : s.InBatch := by
      cases hq : s.pc <;> simp_all [InBatch]
    obtain ⟨l, t, hl⟩ := hs.exists_step build log
    obtain ⟨htaken, hworks, hc', hd'⟩ := hs.step hl
    have hless : t.left + 1 ≤ s.left := by simpa [htaken, hworks] using left_step hl
    obtain ⟨ls, s', hrun, hhead, hnone⟩ := ih t.left (by omega) hc' hd' rfl
    refine ⟨l :: ls, s', Machine.runFrom_cons_of hl hrun, hhead, ?_⟩
    rw [← List.singleton_append, taken_append, htaken, hnone, List.append_nil]

/-- Some value of the request counter makes the thread take a batch of this size. -/
theorem checkAvailCnts_add (n : Nat) {b : Nat} (hpos : 1 ≤ b) (hmax : b ≤ maxBatch) :
    checkAvailCnts ((n + b) % 2 ^ 64) (n % 2 ^ 64) = some b := by
  have hlt : b < 2 ^ 64 := Nat.lt_of_le_of_lt hmax (by decide)
  have havail : wsub 64 ((n + b) % 2 ^ 64) (n % 2 ^ 64) = b := by
    rw [wsub_mod (Nat.le_add_right n b), Nat.add_sub_cancel_left, Nat.mod_eq_of_lt hlt]
  rw [checkAvailCnts, havail]
  by_cases hle : maxBatch ≤ b
  · rw [if_pos hle, Nat.le_antisymm hmax hle]
  · exact (if_neg hle).trans (if_pos hpos)

/-- At the head of its loop the thread can take any batch, unless the log is full. -/
theorem exists_batch (h : (machine build log).run tr = some s) (hp : s.pc = .head)
    (hfull : ¬ logFull build s) {b : Nat} (hpos : 1 ≤ b) (hmax : b ≤ maxBatch) :
    ∃ ls s', (machine build log).runFrom s ls = some s' ∧ s'.pc = .head ∧ taken ls = [b] := by
  obtain ⟨n, hn, -⟩ := handledReqCnt_eq h
  have hsame : (s.self.rewind log).handledReqCnt = n % 2 ^ 64 := by
    rw [← hn, FileDispatcher.rewind]
    split <;> rfl
  have hwrap : step build log s .wrap =
      some { s with pc := .check, self := s.self.rewind log } := if_pos ⟨hp, hfull⟩
  have hload : step build log { s with pc := .check, self := s.self.rewind log }
      (.load ((n + b) % 2 ^ 64) (some b)) =
      some { s with pc := .prepare, self := s.self.rewind log, lookAhead := b, i := 0 } :=
    if_pos ⟨rfl, by rw [hsame]; exact checkAvailCnts_add n hpos hmax⟩
  obtain ⟨ls, s', hrun, hhead, hnone⟩ := exists_finish build log
    (s := { s with pc := .prepare, self := s.self.rewind log, lookAhead := b, i := 0 })
    (by rintro ⟨⟩) (by rintro ⟨⟩)
  exact ⟨.wrap :: .load ((n + b) % 2 ^ 64) (some b) :: ls, s',
    Machine.runFrom_cons_of hwrap (Machine.runFrom_cons_of hload hrun), hhead,
    congrArg (b :: ·) hnone⟩

/-- **Every run of the batches is one of the thread.**  Whatever sizes `check_avail_cnts`
could return, some run of the thread takes them and does what `FileDispatcher.run` does; where
the log of arrival times gets full, both leave the rest. -/
theorem run_realised (build : FileDispatcher.Build) (log : Log) {bs : List Nat}
    (hbs : IsBatches bs) :
    ∃ tr s, (machine build log).run tr = some s ∧ s.pc = .head ∧
      FileDispatcher.run build log bs (.init log) = (s.self, events tr) ∧
      taken tr <+: bs ∧ (taken tr = bs ∨ logFull build s) := by
  induction bs using List.reverseRecOn with
  | nil => exact ⟨[], _, rfl, rfl, rfl, List.prefix_rfl, Or.inl rfl⟩
  | append_singleton bs b ih =>
    obtain ⟨hbs, hb⟩ := (isBatches_append bs [b]).mp hbs
    obtain ⟨tr, s, hrun, hp, heq, hbegins, hall⟩ := ih hbs
    have hends : (FileDispatcher.run build log bs (.init log)).1 = s.self := by rw [heq]
    by_cases hfull : logFull build s
    · refine ⟨tr, s, hrun, hp, ?_, hbegins.trans (List.prefix_append _ _), Or.inr hfull⟩
      rw [FileDispatcher.run_snoc_of_full bs b (by rw [hends]; exact hfull), heq]
    · obtain rfl := hall.resolve_right hfull
      obtain ⟨hpos, hmax⟩ := (isBatches_singleton b).mp hb
      obtain ⟨tr', s', hrun', hp', htaken⟩ := exists_batch hrun hp hfull hpos hmax
      have hboth := Machine.runFrom_append_of hrun hrun'
      have hsame : taken (tr ++ tr') = taken tr ++ [b] := by rw [taken_append, htaken]
      refine ⟨tr ++ tr', s', hboth, hp', ?_, hsame ▸ List.prefix_rfl, Or.inl hsame⟩
      rw [← hsame]
      exact (refines hboth).run_eq_self (Or.inl hp')

/-- One request: the thread is back at the head of its loop. -/
def exampleTrace : List Label :=
  [.wrap, .load 1 (some 1), .prepare 4, .exitPrepare, .prefetch 4, .exitPrefetch,
    .dispatch 4 (some (0, 7)), .finish]

theorem thread_refines_example :
    ∃ s, (machine ⟨true, true⟩ exampleLog).run exampleTrace = some s ∧
      FileDispatcher.run ⟨true, true⟩ exampleLog [1] (.init exampleLog) =
        (s.self, [.prepare 4, .prefetch 4, .dispatch 4]) :=
  ⟨_, rfl, (@thread_refines ⟨true, true⟩ exampleLog exampleTrace _ rfl).2 (Or.inl rfl)⟩

theorem run_realised_example :
    ∃ tr s, (machine ⟨true, true⟩ exampleLog).run tr = some s ∧
      FileDispatcher.run ⟨true, true⟩ exampleLog [2, 3] (.init exampleLog) =
        (s.self, events tr) := by
  obtain ⟨tr, s, hrun, -, heq, -⟩ :=
    @run_realised ⟨true, true⟩ exampleLog [2, 3] (by decide)
  exact ⟨tr, s, hrun, heq⟩

end FileThread

end Doradd
