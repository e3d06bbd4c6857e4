import Doradd.Lib.Work
import Doradd.Dispatcher.Accounting

/-!
# The pipeline gets everything done

The three threads behind the handler poll the request counter and the rings; every other
step of theirs is work on some request.

* `works_or_idle`: some thread can work, unless everything received has been dispatched;
* `drains`: a run holds at most 13 steps of work for each request, and work alone brings it
  to where everything that was received has been dispatched.
-/

namespace Doradd

open Lib

/-! ## Steps that are left -/

/-- The steps that batches between indexer and prefetcher still need. -/
def stepsIdxPref (bs : List Nat) : Nat := (bs.map fun b => 3 * b + 6).sum

/-- The steps that batches between prefetcher and spawner still need. -/
def stepsPrefDisp (bs : List Nat) : Nat := (bs.map fun b => 2 * b + 3).sum

theorem stepsIdxPref_append (bs bs' : List Nat) :
    stepsIdxPref (bs ++ bs') = stepsIdxPref bs + stepsIdxPref bs' := by
  rw [stepsIdxPref, List.map_append, List.sum_append]
  rfl

theorem stepsPrefDisp_append (bs bs' : List Nat) :
    stepsPrefDisp (bs ++ bs') = stepsPrefDisp bs + stepsPrefDisp bs' := by
  rw [stepsPrefDisp, List.map_append, List.sum_append]
  rfl

namespace Indexer

/-- A step that does not merely find that there is no request. -/
def works : Label → Bool
  | .load _ none => false
  | _ => true

/-- The steps left for the batch in hand, until it is dispatched and the next one can be
taken. -/
def left (s : Indexer) : Nat :=
  match s.pc with
  | .head => 1
  | .check => 0
  | .prepare => (s.batch - s.i) + 3 * s.batch + 8

theorem left_step {log : Log} {s s' : Indexer} {l : Label} (hl : step log s l = some s') :
    s'.left + stepsIdxPref (pushed [l]) + (works l).toNat ≤ s.left + 13 * (taken [l]).sum := by
  rcases l with _ | ⟨v, _ | b⟩ | a | b <;>
    simp only [step, Option.ite_none_right_eq_some, Option.some.injEq] at hl
  case wrap =>
    obtain ⟨hp, rfl⟩ := hl
    simp [left, hp, pushed, taken, stepsIdxPref, works]
  case load.none =>
    obtain ⟨-, rfl⟩ := hl
    simp [pushed, taken, stepsIdxPref, works]
  case load.some =>
    obtain ⟨⟨hp, hb⟩, rfl⟩ := hl
    have hpos := (checkAvailCnts_spec hb).1
    simp only [left, hp, pushed, taken, stepsIdxPref, works, List.filterMap_cons,
      List.filterMap_nil, List.map_nil, List.sum_nil, List.sum_cons, Bool.toNat_true]
    omega
  case prepare =>
    obtain ⟨⟨hp, hi, -⟩, rfl⟩ := hl
    simp only [left, hp, pushed, taken, stepsIdxPref, works, List.filterMap_cons,
      List.filterMap_nil, List.map_nil, List.sum_nil, Bool.toNat_true]
    omega
  case push =>
    obtain ⟨⟨hp, -, rfl⟩, rfl⟩ := hl
    simp only [left, hp, pushed, taken, stepsIdxPref, works, List.filterMap_cons,
      List.filterMap_nil, List.map_nil, List.map_cons, List.sum_nil, List.sum_cons,
      Bool.toNat_true]
    omega

end Indexer

namespace Prefetcher

def works : Label → Bool
  | .front none => false
  | _ => true

def left (s : Prefetcher) : Nat :=
  match s.pc with
  | .head => 0
  | .prefetch => (s.batchSz - s.i) + 2 * s.batchSz + 5
  | .pop => 1

theorem left_step {log : Log} {s s' : Prefetcher} {l : Label} (hl : step log s l = some s') :
    s'.left + stepsPrefDisp (pushed [l]) + (works l).toNat ≤
      s.left + stepsIdxPref (batches [l]) := by
  rcases l with (_ | b) | a | b | _ <;>
    simp only [step, Option.ite_none_right_eq_some, Option.some.injEq] at hl
  case front.none =>
    obtain ⟨hp, rfl⟩ := hl
    simp [left, hp, pushed, batches, stepsPrefDisp, works]
  case front.some =>
    obtain ⟨hp, rfl⟩ := hl
    simp only [left, hp, pushed, batches, stepsPrefDisp, stepsIdxPref, works,
      List.filterMap_cons, List.filterMap_nil, List.map_nil, List.map_cons, List.sum_nil,
      List.sum_cons, Bool.toNat_true]
    omega
  case prefetch =>
    obtain ⟨⟨hp, hi, -⟩, rfl⟩ := hl
    simp only [left, hp, pushed, batches, stepsPrefDisp, stepsIdxPref, works,
      List.filterMap_cons, List.filterMap_nil, List.map_nil, List.sum_nil, Bool.toNat_true]
    omega
  case push =>
    obtain ⟨⟨hp, -, rfl⟩, rfl⟩ := hl
    simp only [left, hp, pushed, batches, stepsPrefDisp, stepsIdxPref, works,
      List.filterMap_cons, List.filterMap_nil, List.map_nil, List.map_cons, List.sum_nil,
      List.sum_cons, Bool.toNat_true]
    omega
  case pop =>
    obtain ⟨hp, rfl⟩ := hl
    simp [left, hp, pushed, batches, stepsPrefDisp, works]

end Prefetcher

namespace Spawner

def works : Label → Bool
  | .front none => false
  | .stop => false
  | _ => true

def left (s : Spawner) : Nat :=
  match s.pc with
  | .head => 0
  | .prefetch => (s.batchSz - s.i) + s.batchSz + 2
  | .dispatch => (s.batchSz - s.i) + 1
  | .done => 0

theorem left_step {rpcLatency : Bool} {log : Log} {s s' : Spawner} {l : Label}
    (hl : step rpcLatency log s l = some s') :
    s'.left + (works l).toNat ≤ s.left + stepsPrefDisp (batches [l]) := by
  rcases l with _ | (_ | b) | a | _ | ⟨a, t⟩ | _ <;>
    simp only [step, Option.ite_none_right_eq_some, Option.some.injEq] at hl
  case stop =>
    obtain ⟨⟨hp, -⟩, rfl⟩ := hl
    simp [left, works]
  case front.none =>
    obtain ⟨-, rfl⟩ := hl
    simp [works]
  case front.some =>
    obtain ⟨⟨hp, -⟩, rfl⟩ := hl
    simp only [left, hp, batches, stepsPrefDisp, works, List.filterMap_cons,
      List.filterMap_nil, List.map_nil, List.map_cons, List.sum_nil, List.sum_cons,
      Bool.toNat_true]
    omega
  case exitPrefetch =>
    obtain ⟨⟨hp, -⟩, rfl⟩ := hl
    simp only [left, hp, works, Bool.toNat_true]
    omega
  case pop =>
    obtain ⟨⟨hp, -⟩, rfl⟩ := hl
    simp only [left, hp, works, Bool.toNat_true]
    omega
  all_goals
    obtain ⟨⟨hp, hi, -⟩, rfl⟩ := hl
    simp only [left, hp, works, Bool.toNat_true]
    omega

end Spawner

namespace Pipeline

/-- A step of one of the three threads that is not just a poll. -/
def works : Label → Bool
  | .handler _ => false
  | .indexer l => Indexer.works l
  | .prefetcher l => Prefetcher.works l
  | .spawner l => Spawner.works l

/-- The requests that the indexer sees and has not taken. -/
def waiting (s : Pipeline) : Nat := wsub 64 s.shared.recvdReqCnt s.indexer.handledReqCnt

/-- The batches in a ring behind the one that its consumer holds. -/
def behindIdxPref (s : Pipeline) : List Nat :=
  s.shared.ringIdxPref.items.drop s.prefetcher.holding.length

def behindPrefDisp (s : Pipeline) : List Nat :=
  s.shared.ringPrefDisp.items.drop s.spawner.holding.length

def left (s : Pipeline) : Nat :=
  13 * s.waiting + s.indexer.left + stepsIdxPref s.behindIdxPref + s.prefetcher.left +
    stepsPrefDisp s.behindPrefDisp + s.spawner.left

/-- Nothing is in hand, in a ring, or waiting to be taken. -/
structure Idle (s : Pipeline) : Prop where
  waiting : s.waiting = 0
  indexer : s.indexer.pc = .check
  ringIdxPref : s.shared.ringIdxPref.items = []
  prefetcher : s.prefetcher.pc = .head
  ringPrefDisp : s.shared.ringPrefDisp.items = []
  spawner : s.spawner.pc = .head

variable {c : Setup} {tr : List Label} {s s' : Pipeline} {l : Label}

/-! ## Every step of work -/

theorem received_append (tr tr' : List Label) :
    received (tr ++ tr') = received tr + received tr' := List.count_append

theorem waiting_eq (h : (machine c).run tr = some s) (hlt : received tr < 2 ^ 64) :
    s.waiting = received tr - (taken tr).sum := by
  rw [waiting, recvdReqCnt_eq h, Indexer.handledReqCnt_eq (indexer_run h), ← taken_eq,
    wsub_mod (taken_le_received h), Nat.mod_eq_of_lt (by omega)]

/-- The rings. -/
theorem behind_step (h : (machine c).run tr = some s) (hl : step c s l = some s') :
    stepsIdxPref s.behindIdxPref + stepsIdxPref (pushedIdxPref [l]) =
        stepsIdxPref (takenIdxPref [l]) + stepsIdxPref s'.behindIdxPref ∧
      stepsPrefDisp s.behindPrefDisp + stepsPrefDisp (pushedPrefDisp [l]) =
        stepsPrefDisp (takenPrefDisp [l]) + stepsPrefDisp s'.behindPrefDisp := by
  have hidx := (relays_idxPref h).move_behind (step_idxPref hl)
  have hdisp := (relays_prefDisp h).move_behind (step_prefDisp hl)
  constructor
  · rw [← stepsIdxPref_append, ← stepsIdxPref_append]
    exact congrArg stepsIdxPref hidx
  · rw [← stepsPrefDisp_append, ← stepsPrefDisp_append]
    exact congrArg stepsPrefDisp hdisp

/-- The threads. -/
theorem threads_step (hl : step c s l = some s') :
    s'.indexer.left + stepsIdxPref (pushedIdxPref [l]) + s'.prefetcher.left +
        stepsPrefDisp (pushedPrefDisp [l]) + s'.spawner.left + (works l).toNat ≤
      s.indexer.left + 13 * (taken [l]).sum + s.prefetcher.left +
        stepsIdxPref (takenIdxPref [l]) + s.spawner.left + stepsPrefDisp (takenPrefDisp [l]) := by
  rw [pushedIdxPref_eq, taken_eq, takenIdxPref_eq, pushedPrefDisp_eq, takenPrefDisp_eq]
  cases l with
  | handler l =>
    obtain ⟨t, -, rfl⟩ := step_handler.mp hl
    exact Nat.le_refl _
  | indexer l =>
    obtain ⟨t, ht, m, -, rfl⟩ := step_indexer.mp hl
    have hstep := Indexer.left_step ht
    show t.left + stepsIdxPref (Indexer.pushed [l]) + s.prefetcher.left + 0 + s.spawner.left +
      (Indexer.works l).toNat ≤ s.indexer.left + 13 * (Indexer.taken [l]).sum +
        s.prefetcher.left + 0 + s.spawner.left + 0
    omega
  | prefetcher l =>
    obtain ⟨t, ht, m, -, rfl⟩ := step_prefetcher.mp hl
    have hstep := Prefetcher.left_step ht
    show s.indexer.left + 0 + t.left + stepsPrefDisp (Prefetcher.pushed [l]) + s.spawner.left +
      (Prefetcher.works l).toNat ≤ s.indexer.left + 0 + s.prefetcher.left +
        stepsIdxPref (Prefetcher.batches [l]) + s.spawner.left + 0
    omega
  | spawner l =>
    obtain ⟨t, ht, m, -, rfl⟩ := step_spawner.mp hl
    have hstep := Spawner.left_step ht
    show s.indexer.left + 0 + s.prefetcher.left + 0 + t.left + (Spawner.works l).toNat ≤
      s.indexer.left + 0 + s.prefetcher.left + 0 + s.spawner.left +
        stepsPrefDisp (Spawner.batches [l])
    omega

/-- **Every step of work leaves less to do**, and a request brings in 13 steps. -/
theorem left_step (h : (machine c).run tr = some s) (hlt : received (tr ++ [l]) < 2 ^ 64)
    (hl : step c s l = some s') :
    s'.left + (works l).toNat ≤ s.left + 13 * received [l] := by
  have hrun := ((machine c).run_snoc tr l s').mpr ⟨s, h, hl⟩
  have hwait' := waiting_eq hrun hlt
  have hle' := taken_le_received hrun
  rw [received_append] at hlt hwait' hle'
  have hwait := waiting_eq h (by omega)
  have hle := taken_le_received h
  have htaken : (taken (tr ++ [l])).sum = (taken tr).sum + (taken [l]).sum := by
    rw [taken, List.filterMap_append, List.sum_append]
    rfl
  rw [htaken] at hwait' hle'
  obtain ⟨hidx, hdisp⟩ := behind_step h hl
  have hthreads := threads_step hl
  rw [left, left, hwait, hwait']
  omega

/-! ## Some thread can work -/

/-- The spawner does not leave its loop. -/
theorem not_logExceeded (h : (machine c).run tr = some s) :
    ¬ Spawner.logExceeded c.rpcLatency s.spawner := by
  rintro ⟨hc, hlt⟩
  have hrun := spawner_run h
  rw [hc] at hrun
  have hpre := dispatched_le_prefetched h
  have htak := prefetched_le_taken h
  have hrec := taken_le_received h
  have hlog := received_le hc h
  have hmod := Nat.mod_le (dispatched tr).length (2 ^ 64)
  rw [Spawner.txnLogId_eq hrun, ← dispatched_eq] at hlt
  omega

theorem spawner_not_done (h : (machine c).run tr = some s) : s.spawner.pc ≠ .done := by
  refine Machine.run_induction (P := fun _ s => s.spawner.pc ≠ .done)
    (by intro hp; cases hp) ?_ h
  intro tr s l s' hrun ih hl
  cases l with
  | handler l => obtain ⟨t, -, rfl⟩ := step_handler.mp hl; exact ih
  | indexer l => obtain ⟨t, -, m, -, rfl⟩ := step_indexer.mp hl; exact ih
  | prefetcher l => obtain ⟨t, -, m, -, rfl⟩ := step_prefetcher.mp hl; exact ih
  | spawner l =>
    obtain ⟨t, ht, m, -, rfl⟩ := step_spawner.mp hl
    rcases l with _ | (_ | b) | a | _ | ⟨a, r⟩ | _ <;>
      simp only [Spawner.step, Option.ite_none_right_eq_some, Option.some.injEq] at ht
    case stop => exact absurd ht.1.2 (not_logExceeded hrun)
    case front.none => obtain ⟨-, rfl⟩ := ht; exact ih
    all_goals
      obtain ⟨⟨hp, -⟩, rfl⟩ := ht
      intro hdone
      simp_all

/-- Some thread can take a step of work. -/
def CanWork (c : Setup) (s : Pipeline) : Prop := ∃ l s', works l ∧ step c s l = some s'

theorem canWork_spawner {l : Spawner.Label} {t : Spawner} {m : Shared}
    (hw : Spawner.works l) (ht : Spawner.step c.rpcLatency c.log s.spawner l = some t)
    (hm : spawnerEffect s.shared l = some m) : CanWork c s :=
  ⟨.spawner l, _, hw, step_spawner.mpr ⟨t, ht, m, hm, rfl⟩⟩

theorem spawner_works_or_waits (h : (machine c).run tr = some s) :
    CanWork c s ∨ s.spawner.pc = .head ∧ s.shared.ringPrefDisp.items = [] := by
  cases hp : s.spawner.pc with
  | head =>
    cases hq : s.shared.ringPrefDisp.items with
    | nil => exact Or.inr ⟨rfl, rfl⟩
    | cons b bs =>
      have hf : some b = s.shared.ringPrefDisp.front := by rw [Fifo.front, hq, List.head?_cons]
      exact Or.inl (canWork_spawner (l := .front (some b)) rfl
        (if_pos ⟨hp, not_logExceeded h⟩) (if_pos hf))
  | prefetch =>
    by_cases hi : s.spawner.i < s.spawner.batchSz
    · exact Or.inl (canWork_spawner (l := .prefetch _) rfl (if_pos ⟨hp, hi, rfl⟩) rfl)
    · exact Or.inl (canWork_spawner (l := .exitPrefetch) rfl (if_pos ⟨hp, hi⟩) rfl)
  | dispatch =>
    by_cases hi : s.spawner.i < s.spawner.batchSz
    · cases hc : c.rpcLatency with
      | false =>
        exact Or.inl (canWork_spawner (l := .dispatch _ none) rfl
          (if_pos ⟨hp, hi, rfl, by rw [hc]; rfl⟩) rfl)
      | true =>
        exact Or.inl (canWork_spawner
          (l := .dispatch _ (some (s.spawner.txnLogId, s.shared.logArr s.spawner.txnLogId))) rfl
          (if_pos ⟨hp, hi, rfl, by rw [hc]; rfl⟩) (if_pos rfl))
    · exact Or.inl (canWork_spawner (l := .pop) rfl (if_pos ⟨hp, hi⟩) rfl)
  | done => exact absurd hp (spawner_not_done h)

theorem canWork_prefetcher {l : Prefetcher.Label} {t : Prefetcher} {m : Shared}
    (hw : Prefetcher.works l) (ht : Prefetcher.step c.log s.prefetcher l = some t)
    (hm : prefetcherEffect s.shared l = some m) : CanWork c s :=
  ⟨.prefetcher l, _, hw, step_prefetcher.mpr ⟨t, ht, m, hm, rfl⟩⟩

/-- A push into an empty ring does not wait. -/
theorem push_of_nil {cap : Nat} {q : Fifo Nat cap} (hcap : 0 < cap) (hq : q.items = []) (b : Nat) :
    ∃ q', q.push b = some q' := by
  refine ⟨_, dif_pos ?_⟩
  rwa [hq]

theorem prefetcher_works_or_waits (hring : s.shared.ringPrefDisp.items = []) :
    CanWork c s ∨ s.prefetcher.pc = .head ∧ s.shared.ringIdxPref.items = [] := by
  cases hp : s.prefetcher.pc with
  | head =>
    cases hq : s.shared.ringIdxPref.items with
    | nil => exact Or.inr ⟨rfl, rfl⟩
    | cons b bs =>
      have hf : some b = s.shared.ringIdxPref.front := by rw [Fifo.front, hq, List.head?_cons]
      exact Or.inl (canWork_prefetcher (l := .front (some b)) rfl (if_pos hp) (if_pos hf))
  | prefetch =>
    by_cases hi : s.prefetcher.i < s.prefetcher.batchSz
    · exact Or.inl (canWork_prefetcher (l := .prefetch _) rfl (if_pos ⟨hp, hi, rfl⟩) rfl)
    · obtain ⟨q, hq⟩ := push_of_nil (by decide) hring s.prefetcher.batchSz
      exact Or.inl (canWork_prefetcher (l := .push _) rfl (if_pos ⟨hp, hi, rfl⟩)
        (by rw [prefetcherEffect, hq]; rfl))
  | pop => exact Or.inl (canWork_prefetcher (l := .pop) rfl (if_pos hp) rfl)

theorem canWork_indexer {l : Indexer.Label} {t : Indexer} {m : Shared}
    (hw : Indexer.works l) (ht : Indexer.step c.log s.indexer l = some t)
    (hm : indexerEffect s.shared l = some m) : CanWork c s :=
  ⟨.indexer l, _, hw, step_indexer.mpr ⟨t, ht, m, hm, rfl⟩⟩

theorem indexer_works_or_waits (hring : s.shared.ringIdxPref.items = []) :
    CanWork c s ∨ s.indexer.pc = .check ∧ s.waiting = 0 := by
  cases hp : s.indexer.pc with
  | head => exact Or.inl (canWork_indexer (l := .wrap) rfl (if_pos hp) rfl)
  | check =>
    rcases Nat.eq_zero_or_pos s.waiting with hzero | hpos
    · exact Or.inr ⟨rfl, hzero⟩
    · obtain ⟨b, hb⟩ := exists_checkAvailCnts hpos
      exact Or.inl (canWork_indexer (l := .load _ (some b)) rfl (if_pos ⟨hp, hb⟩) (if_pos rfl))
  | prepare =>
    by_cases hi : s.indexer.i < s.indexer.batch
    · exact Or.inl (canWork_indexer (l := .prepare _) rfl (if_pos ⟨hp, hi, rfl⟩) rfl)
    · obtain ⟨q, hq⟩ := push_of_nil (by decide) hring s.indexer.batch
      exact Or.inl (canWork_indexer (l := .push _) rfl (if_pos ⟨hp, hi, rfl⟩)
        (by rw [indexerEffect, hq]; rfl))

/-- **Some thread can work, or there is nothing to do.** -/
theorem works_or_idle (h : (machine c).run tr = some s) : CanWork c s ∨ s.Idle := by
  rcases spawner_works_or_waits h with hw | ⟨hp₃, hq₂⟩
  · exact Or.inl hw
  rcases prefetcher_works_or_waits (c := c) hq₂ with hw | ⟨hp₂, hq₁⟩
  · exact Or.inl hw
  rcases indexer_works_or_waits (c := c) hq₁ with hw | ⟨hp₁, hwait⟩
  · exact Or.inl hw
  · exact Or.inr ⟨hwait, hp₁, hq₁, hp₂, hq₂, hp₃⟩

/-- When nothing is left, everything that was received has been dispatched. -/
theorem Idle.length_dispatched (hi : s.Idle) (h : (machine c).run tr = some s)
    (hlt : received tr < 2 ^ 64) : (dispatched tr).length = received tr := by
  have hwait := waiting_eq h hlt
  have hle := taken_le_received h
  have hidx := Indexer.taken_eq (indexer_run h)
  have hpref := Prefetcher.batches_eq (prefetcher_run h)
  have hdisp := Spawner.length_dispatched (spawner_run h)
  obtain ⟨done₁, hpush₁, htake₁, -⟩ := relays_idxPref h
  obtain ⟨done₂, hpush₂, htake₂, -⟩ := relays_prefDisp h
  rw [hi.waiting] at hwait
  simp only [Indexer.pending, hi.indexer, List.append_nil, ← taken_eq, ← pushedIdxPref_eq] at hidx
  simp only [Prefetcher.pending, hi.prefetcher, List.append_nil, ← takenIdxPref_eq,
    ← pushedPrefDisp_eq] at hpref
  simp only [Spawner.todo, hi.spawner, Nat.add_zero, ← dispatched_eq, ← takenPrefDisp_eq] at hdisp
  simp only [hi.ringIdxPref, Prefetcher.holding, hi.prefetcher, List.append_nil] at hpush₁ htake₁
  simp only [hi.ringPrefDisp, Spawner.holding, hi.spawner, List.append_nil] at hpush₂ htake₂
  rw [hdisp, htake₂, ← hpush₂, ← hpref, htake₁, ← hpush₁, ← hidx]
  omega

/-! ## Draining -/

theorem metered (c : Setup) :
    (machine c).Metered (.handler .count) (2 ^ 64) 13 works left Idle
      fun tr => (dispatched tr).length where
  not_works := rfl
  spends := fun _ _ _ _ => left_step
  works_or_idle := fun _ _ h _ => works_or_idle h
  done_of_idle := fun _ _ h hlt hidle => hidle.length_dispatched h hlt

end Pipeline

end Doradd
