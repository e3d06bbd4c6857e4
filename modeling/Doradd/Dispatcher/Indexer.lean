import Doradd.Dispatcher.Walker

/-!
# Indexer

`Indexer::run` as a machine of its own: the value loaded from the request
counter is an input.  The variable `batch` is not initialised, so the size `g`
used by the very first wrap test is a parameter; the test compares with
`read_count - batch`, where `batch` is still the size of the batch before.

* `indexer_walks`: through `walk` a run of the indexer is a run of a walker;
* `fits_iff`: every batch fits exactly if the wrap test, had it been made with
  the size of the new batch, would not have fired;
* `prepared_inside_iff`: exactly then the indexer stays inside the log.
-/

namespace Doradd

open Lib

inductive Indexer.Pc
  | head
  | check
  | prepare
  deriving DecidableEq, Repr

/-- The variables of `Indexer::run`; `cursor` holds `read_idx` and `read_head`. -/
structure Indexer where
  pc : Indexer.Pc
  cursor : Cursor
  batch : Nat
  i : Nat
  handledReqCnt : Nat
  deriving DecidableEq, Repr

/-- One turn of the loop in `check_avail_cnts`: the size of the next batch, or
`none` if no request is waiting and the loop goes round again. -/
def checkAvailCnts (loadVal handledReqCnt : Nat) : Option Nat :=
  let availCnt := wsub 64 loadVal handledReqCnt
  if maxBatch ≤ availCnt then some maxBatch
  else if 0 < availCnt then some availCnt
  else none

theorem exists_checkAvailCnts {v h : Nat} (hpos : 0 < wsub 64 v h) :
    ∃ b, checkAvailCnts v h = some b := by
  simp only [checkAvailCnts]
  by_cases hle : maxBatch ≤ wsub 64 v h
  · exact ⟨_, if_pos hle⟩
  · exact ⟨_, (if_neg hle).trans (if_pos hpos)⟩

theorem checkAvailCnts_spec {v h b : Nat} (hb : checkAvailCnts v h = some b) :
    1 ≤ b ∧ b ≤ maxBatch ∧ b ≤ wsub 64 v h := by
  simp only [checkAvailCnts] at hb
  by_cases hle : maxBatch ≤ wsub 64 v h
  · rw [if_pos hle, Option.some.injEq] at hb
    subst hb
    exact ⟨by decide, Nat.le_refl _, hle⟩
  · rw [if_neg hle] at hb
    by_cases hpos : 0 < wsub 64 v h
    · rw [if_pos hpos, Option.some.injEq] at hb
      subst hb
      exact ⟨hpos, Nat.le_of_not_le hle, Nat.le_refl _⟩
    · rw [if_neg hpos] at hb
      cases hb

namespace Indexer

/-- `wrap` is the test at the loop head, `load v r` one load of the request
counter with value `v` and its result. -/
inductive Label
  | wrap
  | load (v : Nat) (r : Option Nat)
  | prepare (a : Nat)
  | push (b : Nat)
  deriving DecidableEq, Repr

/-- `read_count - batch`, a 32-bit difference: `batch` is an `int`. -/
def wrapLimit (log : Log) (batch : Nat) : Nat := wsub 32 log.readCount batch

/-- `read_idx > (read_count - batch)` -/
def wrapTest (log : Log) (batch readIdx : Nat) : Prop := wrapLimit log batch < readIdx

def step (log : Log) (s : Indexer) : Label → Option Indexer
  | .wrap =>
    if s.pc = .head then
      some { s with pc := .check, cursor := s.cursor.wrap log (wrapLimit log s.batch) }
    else none
  | .load v none =>
    if s.pc = .check ∧ checkAvailCnts v s.handledReqCnt = none then some s else none
  | .load v (some b) =>
    if s.pc = .check ∧ checkAvailCnts v s.handledReqCnt = some b then
      some { s with
        pc := .prepare
        batch := b
        i := 0
        handledReqCnt := (s.handledReqCnt + b) % 2 ^ 64 }
    else none
  | .prepare a =>
    if s.pc = .prepare ∧ s.i < s.batch ∧ a = s.cursor.readHead then
      some { s with cursor := s.cursor.next log, i := s.i + 1 }
    else none
  | .push b =>
    if s.pc = .prepare ∧ ¬ s.i < s.batch ∧ b = s.batch then some { s with pc := .head } else none

def init (log : Log) (g : Nat) : Indexer := ⟨.head, log.at 0, g, 0, 0⟩

def machine (log : Log) (g : Nat) : Machine Indexer Label := ⟨init log g, step log⟩

/-- The sizes returned by `check_avail_cnts`. -/
def taken (tr : List Label) : List Nat :=
  tr.filterMap fun
    | .load _ (some b) => some b
    | _ => none

/-- The records on which `prepare_cowns` ran. -/
def prepared (tr : List Label) : List Nat :=
  tr.filterMap fun
    | .prepare a => some a
    | _ => none

/-- The batches handed to the prefetcher. -/
def pushed (tr : List Label) : List Nat :=
  tr.filterMap fun
    | .push b => some b
    | _ => none

/-- The batch taken and not yet pushed, if there is one. -/
def pending (s : Indexer) : List Nat :=
  match s.pc with
  | .prepare => [s.batch]
  | _ => []

/-! ## The indexer is a walker -/

/-- Records of the batch in hand that are still to be prepared. -/
def todo (s : Indexer) : Nat :=
  match s.pc with
  | .prepare => s.batch - s.i
  | _ => 0

def walk : Label → Option Walker.Label
  | .wrap => some .wrap
  | .load _ (some b) => some (.take b)
  | .prepare a => some (.visit a)
  | _ => none

theorem taken_walk (tr : List Label) : Walker.taken (tr.filterMap walk) = taken tr := by
  rw [Walker.taken, taken, List.filterMap_filterMap]
  congr 1
  funext l
  rcases l with _ | ⟨_, _ | _⟩ | _ | _ <;> rfl

theorem visited_walk (tr : List Label) : Walker.visited (tr.filterMap walk) = prepared tr := by
  rw [Walker.visited, prepared, List.filterMap_filterMap]
  congr 1
  funext l
  rcases l with _ | ⟨_, _ | _⟩ | _ | _ <;> rfl

variable {log : Log} {g : Nat} {tr : List Label} {s : Indexer}

/-- The wrap test comes out as a comparison with the limit `lim batch`. -/
def WrapsAt (log : Log) (lim : Nat → Nat) (s : Indexer) : Label → Prop
  | .wrap => wrapTest log s.batch s.cursor.idx ↔ lim s.batch < s.cursor.idx
  | _ => True

variable {lim : Nat → Nat}

/-- After the wrap test the test would not fire again. -/
theorem not_lim_lt (h : (machine log g).run tr = some s)
    (ha : (machine log g).Along (WrapsAt log lim) tr) :
    s.pc = .check → ¬ lim s.batch < s.cursor.idx := by
  refine Machine.along_induction (P := fun _ s => s.pc = .check → ¬ lim s.batch < s.cursor.idx)
    ?_ ?_ h ha
  · intro hp
    cases hp
  · intro tr s l s' _ _ hw ih hl hp
    rcases l with _ | ⟨v, _ | b⟩ | a | b <;>
      simp only [machine, step, Option.ite_none_right_eq_some, Option.some.injEq] at hl
    case wrap =>
      obtain ⟨_, rfl⟩ := hl
      simp only [WrapsAt, wrapTest] at hw
      simp only [Cursor.wrap, hw]
      split
      · exact Nat.not_lt_zero _
      · assumption
    case load.none =>
      obtain ⟨hpc, rfl⟩ := hl
      exact ih hp
    case load.some => obtain ⟨_, rfl⟩ := hl; cases hp
    case prepare => obtain ⟨hpc, rfl⟩ := hl; rw [hpc.1] at hp; cases hp
    case push => obtain ⟨_, rfl⟩ := hl; cases hp

theorem walks_along (h : (machine log g).run tr = some s)
    (ha : (machine log g).Along (WrapsAt log lim) tr) :
    (Walker.machine log lim g).run (tr.filterMap walk) = some ⟨s.cursor, s.batch, s.todo⟩ := by
  refine Machine.along_project (fun s : Indexer => (⟨s.cursor, s.batch, s.todo⟩ : Walker)) walk
    rfl ?_ h ha
  intro tr s l s' hrun hat hw hl
  rcases l with _ | ⟨v, _ | b⟩ | a | b <;>
    simp only [machine, step, Option.ite_none_right_eq_some, Option.some.injEq] at hl
  case wrap =>
    obtain ⟨hp, rfl⟩ := hl
    simp only [WrapsAt, wrapTest] at hw
    simp [walk, todo, hp, Walker.machine, Walker.step, Cursor.wrap, hw]
  case load.none => obtain ⟨_, rfl⟩ := hl; rfl
  case load.some =>
    obtain ⟨⟨hp, _⟩, rfl⟩ := hl
    have hlim := not_lim_lt hrun hat hp
    simp [walk, todo, hp, Walker.machine, Walker.step, Cursor.wrap, hlim]
  case prepare =>
    obtain ⟨⟨hp, hi, ha⟩, rfl⟩ := hl
    simp [walk, todo, hp, Walker.machine, Walker.step, ha, Nat.sub_sub]
    omega
  case push =>
    obtain ⟨⟨hp, hi, _⟩, rfl⟩ := hl
    simp [walk, todo, hp]
    omega

theorem wrapsAt_wrapLimit (tr : List Label) :
    (machine log g).Along (WrapsAt log (wrapLimit log)) tr :=
  Machine.along_of_forall (fun s l => by cases l <;> simp [WrapsAt, wrapTest]) tr

theorem not_wrapTest (h : (machine log g).run tr = some s) (hp : s.pc = .check) :
    ¬ wrapTest log s.batch s.cursor.idx :=
  not_lim_lt h (wrapsAt_wrapLimit tr) hp

theorem indexer_walks (h : (machine log g).run tr = some s) :
    (Walker.machine log (wrapLimit log) g).run (tr.filterMap walk) =
      some ⟨s.cursor, s.batch, s.todo⟩ :=
  walks_along h (wrapsAt_wrapLimit tr)

/-- Every batch taken is between 1 and `MAX_BATCH`. -/
theorem isBatches_taken (h : (machine log g).run tr = some s) : IsBatches (taken tr) := by
  refine Machine.run_induction (P := fun tr _ => IsBatches (taken tr)) isBatches_nil ?_ h
  intro tr s l s' _ ih hl
  rw [taken, List.filterMap_append, isBatches_append]
  refine ⟨ih, ?_⟩
  rcases l with _ | ⟨v, _ | b⟩ | a | b
  case load.some =>
    simp only [machine, step, Option.ite_none_right_eq_some] at hl
    obtain ⟨h1, h2, _⟩ := checkAvailCnts_spec hl.1.2
    exact (isBatches_singleton b).mpr ⟨h1, h2⟩
  all_goals exact isBatches_nil

/-- Every batch taken is pushed, or in hand. -/
theorem taken_eq (h : (machine log g).run tr = some s) : taken tr = pushed tr ++ s.pending := by
  refine Machine.run_induction (P := fun tr s => taken tr = pushed tr ++ s.pending) rfl ?_ h
  intro tr s l s' _ ih hl
  rw [taken, pushed] at ih ⊢
  rw [List.filterMap_append, List.filterMap_append, ih]
  rcases l with _ | ⟨v, _ | b⟩ | a | b <;>
    simp only [machine, step, Option.ite_none_right_eq_some, Option.some.injEq] at hl
  case wrap => obtain ⟨hp, rfl⟩ := hl; simp [pending, hp]
  case load.none => obtain ⟨_, rfl⟩ := hl; simp
  case load.some => obtain ⟨⟨hp, _⟩, rfl⟩ := hl; simp [pending, hp]
  case prepare => obtain ⟨⟨hp, _⟩, rfl⟩ := hl; simp [pending, hp]
  case push => obtain ⟨⟨hp, _, hb⟩, rfl⟩ := hl; simp [pending, hp, hb]

/-- `handled_req_cnt` counts the requests taken. -/
theorem handledReqCnt_eq (h : (machine log g).run tr = some s) :
    s.handledReqCnt = (taken tr).sum % 2 ^ 64 := by
  refine Machine.run_induction (P := fun tr s => s.handledReqCnt = (taken tr).sum % 2 ^ 64)
    (by rfl) ?_ h
  intro tr s l s' _ ih hl
  rw [taken] at ih ⊢
  rw [List.filterMap_append, List.sum_append]
  rcases l with _ | ⟨v, _ | b⟩ | a | b <;>
    simp only [machine, step, Option.ite_none_right_eq_some, Option.some.injEq] at hl
  case load.some =>
    obtain ⟨_, rfl⟩ := hl
    simp only [ih, Nat.mod_add_mod]
    rfl
  all_goals
    obtain ⟨_, rfl⟩ := hl
    exact ih

/-! ## Staying inside the log -/

/-- What a step of the indexer should meet: when it takes a batch of `b`
records, the wrap test made with `b` instead of the size before would not fire. -/
def TakesWhatFits (log : Log) (s : Indexer) : Label → Prop
  | .load _ (some b) => ¬ wrapTest log b s.cursor.idx
  | _ => True

theorem not_wrapTest_iff (hn : maxBatch ≤ log.readCount) {b i : Nat} (hb : b ≤ maxBatch) :
    ¬ wrapTest log b i ↔ i + b ≤ log.readCount := by
  rw [wrapTest, wrapLimit, wsub_of_le log.readCount_lt (Nat.le_trans hb hn)]
  omega

/-- Before a batch is taken, the cursor is where the replay of the batches so
far starts the next one. -/
theorem start_eq (h : (machine log g).run tr = some s) (hp : s.pc = .check)
    (hf : Pos.Fits (wrapLimit log) log.readCount ⟨g, 0⟩ (taken tr)) :
    (Pos.after (wrapLimit log) ⟨g, 0⟩ (taken tr)).start (wrapLimit log) = s.cursor.idx := by
  rw [← taken_walk] at hf ⊢
  obtain ⟨e, he⟩ := Walker.walker_at (indexer_walks h) hf
  have hw := not_wrapTest h hp
  have hc := he.cursor
  have hst := he.start
  simp only [todo, hp, Nat.add_zero] at hc hst
  rw [← hst, Pos.start]
  rw [hc, Log.at_idx] at hw ⊢
  exact if_neg hw

/-- **Every batch fits exactly if every step takes what fits.** -/
theorem fits_iff (hn : maxBatch ≤ log.readCount) (h : (machine log g).run tr = some s) :
    Pos.Fits (wrapLimit log) log.readCount ⟨g, 0⟩ (taken tr) ↔
      (machine log g).Along (TakesWhatFits log) tr := by
  refine Machine.run_induction (P := fun tr _ =>
    Pos.Fits (wrapLimit log) log.readCount ⟨g, 0⟩ (taken tr) ↔
      (machine log g).Along (TakesWhatFits log) tr) ?_ ?_ h
  · exact ⟨fun _ => Machine.along_nil, fun _ => trivial⟩
  · intro tr s l s' hrun ih hl
    rw [Machine.along_snoc hrun, ← ih]
    rcases l with _ | ⟨v, _ | b⟩ | a | b
    case load.some =>
      have ht : taken (tr ++ [.load v (some b)]) = taken tr ++ [b] := by simp [taken]
      simp only [machine, step, Option.ite_none_right_eq_some] at hl
      rw [ht, Pos.fits_snoc, TakesWhatFits, not_wrapTest_iff hn (checkAvailCnts_spec hl.1.2).2.1]
      refine and_congr_right fun hf => ?_
      rw [start_eq hrun hl.1.1 hf]
    all_goals simp [taken, TakesWhatFits]

/-- The limit after a batch of `b` records is `n - b`, and the first test finds record 0. -/
theorem fits_iff_sub (hn : maxBatch ≤ log.readCount) {bs : List Nat} (hb : IsBatches bs) :
    Pos.Fits (wrapLimit log) log.readCount ⟨g, 0⟩ bs ↔
      Pos.Fits (fun b => log.readCount - b) log.readCount ⟨0, 0⟩ bs := by
  refine Pos.fits_congr (fun b hmem => ?_) ?_
  · exact wsub_of_le log.readCount_lt (Nat.le_trans (hb b hmem).2 hn)
  · rw [Pos.start, Pos.start, if_neg (Nat.not_lt_zero _), if_neg (Nat.not_lt_zero _)]

/-- **The indexer stays inside the log exactly if every step takes what fits.**
Whether they do can be told from the size of the log and the sizes taken.  While
they do, every record prepared is a record of the log; between two batches the
converse holds as well. -/
theorem prepared_inside_iff (hn : maxBatch ≤ log.readCount)
    (h : (machine log g).run tr = some s) :
    ((machine log g).Along (TakesWhatFits log) tr ↔
      Pos.Fits (fun b => log.readCount - b) log.readCount ⟨0, 0⟩ (taken tr)) ∧
    ((machine log g).Along (TakesWhatFits log) tr →
      ∀ a ∈ prepared tr, ∃ e < log.readCount, a = log.record e) ∧
    (s.pc = .head → (∀ a ∈ prepared tr, ∃ e < log.readCount, a = log.record e) →
      (machine log g).Along (TakesWhatFits log) tr) := by
  rw [← fits_iff hn h]
  refine ⟨fits_iff_sub hn (isBatches_taken h), ?_, ?_⟩
  · intro hf a ha
    have hf' := hf
    rw [← taken_walk] at hf'
    obtain ⟨_, ht⟩ := Walker.walker_at (indexer_walks h) hf'
    have hsub := ht.visited_isPrefix.subset
    rw [visited_walk, taken_walk] at hsub
    obtain ⟨e, he, rfl⟩ := List.mem_map.mp (hsub ha)
    exact ⟨e, hf.visits_lt e he, rfl⟩
  · intro hp hin
    by_contra hf
    rw [← taken_walk] at hf
    have hpast := (Walker.walker_overrun (indexer_walks h) hf).idle (by simp [todo, hp])
    have hn := hpast log.readCount (Nat.le_refl _)
    rw [visited_walk] at hn
    obtain ⟨e, he, heq⟩ := hin _ hn
    rw [Log.record_inj] at heq
    omega

/-- The labels of one batch of `b` records from record `e` with `h` requests
handled before and exactly these `b` waiting. -/
def batchLabels (log : Log) (h e b : Nat) : List Label :=
  .wrap :: .load (h + b) (some b) ::
    (List.range' e b).map (fun d => .prepare (log.record d)) ++ [.push b]

/-- Batches of 2, 2 and 2 reach the end of a log of six records, and the next one starts again. -/
theorem prepared_inside_example :
    ∃ tr s, (machine exampleLog 0).run tr = some s ∧ taken tr = [2, 2, 2, 4] ∧
      (machine exampleLog 0).Along (TakesWhatFits exampleLog) tr ∧
      ∀ a ∈ prepared tr, ∃ e < 6, a = exampleLog.record e := by
  obtain ⟨hiff, hinside, -⟩ := @prepared_inside_iff exampleLog 0 (batchLabels exampleLog 0 0 2 ++
    batchLabels exampleLog 2 2 2 ++ batchLabels exampleLog 4 4 2 ++ batchLabels exampleLog 6 0 4) _
    (by decide) rfl
  have hfits := hiff.mpr ⟨by decide, by decide, by decide, by decide, trivial⟩
  exact ⟨_, _, rfl, rfl, hfits, hinside hfits⟩

/-- Batches of 2, 2 and 3 on a log of six records: at record 4 the test with
the old size 2 lets the cursor stand, and the batch of 3 reaches record 6. -/
theorem prepared_outside :
    ¬ ∀ (log : Log) (g : Nat) (tr : List Label) (s : Indexer),
      maxBatch ≤ log.readCount → (machine log g).run tr = some s →
      ∀ a ∈ prepared tr, ∃ e < log.readCount, a = log.record e := by
  intro h
  obtain ⟨e, he, ha⟩ := h exampleLog 0
    (batchLabels exampleLog 0 0 2 ++ batchLabels exampleLog 2 2 2 ++ batchLabels exampleLog 4 4 3)
    _ (by decide) rfl (exampleLog.record 6) (by decide)
  rw [Log.record_inj] at ha
  subst ha
  exact Nat.lt_irrefl 6 he

end Indexer

end Doradd
