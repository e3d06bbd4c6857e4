import Doradd.Dispatcher.Pipeline

/-!
# Counting requests and matching arrival times

The pipeline has four counters: the request counter, `handled_req_cnt`, and how
many records have been prefetched and dispatched.  Batches in hand, in one ring
or in both rings at once account for their differences.

* `accounting`: the counts are ordered and at most
  `(1 + CHANNEL_SIZE_IDX_PREF + CHANNEL_SIZE) * MAX_BATCH` requests are under way;
* `dispatch_reads_arrival`: the `k`-th dispatch reads the slot that holds the
  arrival time of the `k`-th request.
-/

namespace Doradd.Pipeline

open Lib

variable {c : Setup} {tr : List Label} {s : Pipeline}

/-- Records on which the prefetcher ran `prefetch_cowns`. -/
def prefetched (tr : List Label) : List Nat :=
  tr.filterMap fun
    | .prefetcher (.prefetch a) => some a
    | _ => none

/-- Records the spawner dispatched. -/
def dispatched (tr : List Label) : List Nat :=
  tr.filterMap fun
    | .spawner (.dispatch a _) => some a
    | _ => none

theorem prefetched_eq (tr : List Label) :
    prefetched tr = Prefetcher.prefetched (tr.filterMap ofPrefetcher) := by
  rw [Prefetcher.prefetched, prefetched, List.filterMap_filterMap]
  congr 1
  funext l
  rcases l with _ | _ | (_ | _ | _ | _) | _ <;> rfl

theorem dispatched_eq (tr : List Label) :
    dispatched tr = Spawner.dispatched (tr.filterMap ofSpawner) := by
  rw [Spawner.dispatched, dispatched, List.filterMap_filterMap]
  congr 1
  funext l
  rcases l with _ | _ | _ | (_ | _ | _ | _ | _ | _) <;> rfl

/-! ## The batches on their way -/

theorem isBatches_taken (h : (machine c).run tr = some s) : IsBatches (taken tr) := by
  rw [taken_eq]
  exact Indexer.isBatches_taken (indexer_run h)

theorem pushedIdxPref_isPrefix (h : (machine c).run tr = some s) :
    pushedIdxPref tr <+: taken tr := by
  rw [taken_eq, pushedIdxPref_eq, Indexer.taken_eq (indexer_run h)]
  exact List.prefix_append _ _

theorem takenIdxPref_isPrefix (h : (machine c).run tr = some s) :
    takenIdxPref tr <+: pushedIdxPref tr :=
  (relays_idxPref h).isPrefix

theorem pushedPrefDisp_isPrefix (h : (machine c).run tr = some s) :
    pushedPrefDisp tr <+: takenIdxPref tr := by
  rw [pushedPrefDisp_eq, takenIdxPref_eq, Prefetcher.batches_eq (prefetcher_run h)]
  exact List.prefix_append _ _

theorem takenPrefDisp_isPrefix (h : (machine c).run tr = some s) :
    takenPrefDisp tr <+: pushedPrefDisp tr :=
  (relays_prefDisp h).isPrefix

/-- What the spawner takes is a prefix of what the prefetcher takes. -/
theorem taken_isPrefix (h : (machine c).run tr = some s) : takenPrefDisp tr <+: takenIdxPref tr :=
  (takenPrefDisp_isPrefix h).trans (pushedPrefDisp_isPrefix h)

theorem isBatches_pushedIdxPref (h : (machine c).run tr = some s) : IsBatches (pushedIdxPref tr) :=
  (isBatches_taken h).mono (pushedIdxPref_isPrefix h)

theorem isBatches_takenIdxPref (h : (machine c).run tr = some s) : IsBatches (takenIdxPref tr) :=
  (isBatches_pushedIdxPref h).mono (takenIdxPref_isPrefix h)

theorem isBatches_takenPrefDisp (h : (machine c).run tr = some s) : IsBatches (takenPrefDisp tr) :=
  (isBatches_takenIdxPref h).mono (taken_isPrefix h)

theorem sum_le_of_isPrefix {bs cs : List Nat} (h : bs <+: cs) : bs.sum ≤ cs.sum := by
  obtain ⟨ds, rfl⟩ := h
  rw [List.sum_append]
  exact Nat.le_add_right _ _

/-! ## Counting -/

theorem dispatched_le_prefetched (h : (machine c).run tr = some s) :
    (dispatched tr).length ≤ (prefetched tr).length := by
  have hd := Spawner.length_dispatched (spawner_run h)
  have hp := Prefetcher.length_prefetched (prefetcher_run h)
  have hb := Prefetcher.batches_eq (prefetcher_run h)
  have ht := Prefetcher.todo_le_pending s.prefetcher
  have hle := sum_le_of_isPrefix (takenPrefDisp_isPrefix h)
  rw [← dispatched_eq, ← takenPrefDisp_eq] at hd
  rw [hb, ← prefetched_eq, ← pushedPrefDisp_eq, List.sum_append] at hp
  omega

theorem prefetched_le_taken (h : (machine c).run tr = some s) :
    (prefetched tr).length ≤ (taken tr).sum := by
  have hp := Prefetcher.length_prefetched (prefetcher_run h)
  have hle := sum_le_of_isPrefix ((takenIdxPref_isPrefix h).trans (pushedIdxPref_isPrefix h))
  rw [← prefetched_eq, ← takenIdxPref_eq] at hp
  omega

/-- Requests under way are in hand in the indexer or in one of the rings: what a
consumer works on is still at the front of its ring. -/
theorem backlog_le (h : (machine c).run tr = some s) :
    (taken tr).sum ≤
      (dispatched tr).length + (1 + channelSizeIdxPref + channelSize) * maxBatch := by
  obtain ⟨done₁, hpush₁, htake₁, hhold₁⟩ := relays_idxPref h
  obtain ⟨done₂, hpush₂, htake₂, _⟩ := relays_prefDisp h
  have hb := isBatches_taken h
  have hsum := congrArg List.sum (Indexer.taken_eq (indexer_run h))
  rw [← taken_eq, ← pushedIdxPref_eq, hpush₁, List.sum_append, List.sum_append] at hsum
  -- the batch in the indexer's hand
  have hpend : s.indexer.pending.sum ≤ 1 * maxBatch := by
    have hmem : IsBatches s.indexer.pending := by
      rw [taken_eq, Indexer.taken_eq (indexer_run h), isBatches_append] at hb
      exact hb.2
    have hlen : s.indexer.pending.length ≤ 1 := by
      unfold Indexer.pending
      split <;> simp
    exact hmem.sum_le_of_length hlen
  -- the two rings
  have hring₁ : s.shared.ringIdxPref.items.sum ≤ channelSizeIdxPref * maxBatch := by
    have hmem := isBatches_pushedIdxPref h
    rw [hpush₁, isBatches_append] at hmem
    exact hmem.2.sum_le_of_length s.shared.ringIdxPref.bounded
  have hring₂ : s.shared.ringPrefDisp.items.sum ≤ channelSize * maxBatch := by
    have hmem := (isBatches_takenIdxPref h).mono (pushedPrefDisp_isPrefix h)
    rw [hpush₂, isBatches_append] at hmem
    exact hmem.2.sum_le_of_length s.shared.ringPrefDisp.bounded
  -- the prefetcher has pushed all but what it holds, the spawner dispatched all but that
  have hpref := congrArg List.sum (Prefetcher.batches_eq (prefetcher_run h))
  rw [← takenIdxPref_eq, ← pushedPrefDisp_eq, htake₁, hpush₂, List.sum_append, List.sum_append,
    List.sum_append] at hpref
  have hheld : s.prefetcher.pending.sum ≤ s.prefetcher.holding.sum := by
    unfold Prefetcher.pending Prefetcher.holding
    cases s.prefetcher.pc <;> simp
  have hdisp := Spawner.length_dispatched (spawner_run h)
  rw [← dispatched_eq, ← takenPrefDisp_eq, htake₂, List.sum_append] at hdisp
  have htodo := Spawner.todo_le_holding s.spawner
  rw [Nat.add_mul, Nat.add_mul]
  omega

/-- In the `RPC_LATENCY` build the handler stops when the log is full. -/
theorem received_le (hc : c.rpcLatency = true) (h : (machine c).run tr = some s) :
    received tr ≤ rpcLogSize := by
  have hr := handler_run h
  rw [hc] at hr
  have hi := RPCHandler.inv hr
  have hb := hi.bound
  have hcnt := hi.counted
  rw [← received_eq] at hcnt
  omega

/-- **Accounting.**  The counts of requests are ordered in every state, the
backlog is bounded, and the two registers hold their counts modulo 2^64: their
difference never exceeds the true backlog, and before 2^64 requests they are
ordered as well. -/
theorem accounting (h : (machine c).run tr = some s) :
    IsBatches (taken tr) ∧
    (dispatched tr).length ≤ (prefetched tr).length ∧
    (prefetched tr).length ≤ (taken tr).sum ∧
    (taken tr).sum ≤ received tr ∧
    (taken tr).sum - (dispatched tr).length ≤
      (1 + channelSizeIdxPref + channelSize) * maxBatch ∧
    s.indexer.handledReqCnt = (taken tr).sum % 2 ^ 64 ∧
    s.shared.recvdReqCnt = received tr % 2 ^ 64 ∧
    wsub 64 s.shared.recvdReqCnt s.indexer.handledReqCnt =
      (received tr - (taken tr).sum) % 2 ^ 64 ∧
    (received tr < 2 ^ 64 → s.indexer.handledReqCnt = (taken tr).sum ∧
      s.shared.recvdReqCnt = received tr ∧ s.indexer.handledReqCnt ≤ s.shared.recvdReqCnt) ∧
    (c.rpcLatency = true → received tr < 2 ^ 64) := by
  have hle := taken_le_received h
  have hh := Indexer.handledReqCnt_eq (indexer_run h)
  have hr := recvdReqCnt_eq h
  rw [← taken_eq] at hh
  refine ⟨isBatches_taken h, dispatched_le_prefetched h, prefetched_le_taken h, hle,
    Nat.sub_le_iff_le_add'.mpr (backlog_le h), hh, hr, ?_, ?_, ?_⟩
  · rw [hh, hr, wsub_mod hle]
  · intro hlt
    rw [hh, hr, Nat.mod_eq_of_lt hlt, Nat.mod_eq_of_lt (Nat.lt_of_le_of_lt hle hlt)]
    exact ⟨rfl, rfl, hle⟩
  · intro hc
    exact Nat.lt_of_le_of_lt (received_le hc h) (by decide)

/-- Request `k` and the next `n - 1` arrive, at the times `7 + k` and so on. -/
def arrivals (k n : Nat) : List Label :=
  (List.range' k n).flatMap fun j => [.handler (.store j (7 + j)), .handler .count]

/-- Batches of 4, 1 and 2 requests on a log of six records.  The indexer has wrapped after the
first and pushed all three, the prefetcher has pushed the second and not yet popped it, and
the spawner has dispatched one record of the first. -/
def threeBatches : List Label :=
  arrivals 0 4 ++ (Indexer.batchLabels exampleLog 0 0 4).map .indexer ++
    (Prefetcher.batchLabels exampleLog 0 4).map .prefetcher ++ .prefetcher .pop ::
    arrivals 4 1 ++ (Indexer.batchLabels exampleLog 4 0 1).map .indexer ++
    (Prefetcher.batchLabels exampleLog 0 1).map .prefetcher ++
    arrivals 5 2 ++ (Indexer.batchLabels exampleLog 5 1 2).map .indexer ++
    [Spawner.Label.front (some 4), .prefetch 4, .prefetch 132, .prefetch 260, .prefetch 388,
      .exitPrefetch, .dispatch 4 (some (0, 7))].map .spawner

/-- The second batch is in both rings. -/
theorem accounting_example :
    ∃ s, (machine (exampleSetup true)).run threeBatches = some s ∧
      s.shared.ringIdxPref.items = [1, 2] ∧ s.shared.ringPrefDisp.items = [4, 1] ∧
      taken threeBatches = [4, 1, 2] ∧
      (dispatched threeBatches).length ≤ (prefetched threeBatches).length ∧
      (taken threeBatches).sum - (dispatched threeBatches).length ≤
        (1 + channelSizeIdxPref + channelSize) * maxBatch := by
  refine ⟨_, rfl, rfl, rfl, rfl, ?_⟩
  obtain ⟨-, hdisp, -, -, hbacklog, -⟩ := @accounting (exampleSetup true) threeBatches _ rfl
  exact ⟨hdisp, hbacklog⟩

/-- Without `RPC_LATENCY` the handler may count on while the others rest. -/
theorem run_counts (hc : c.rpcLatency = false) (h : (machine c).run tr = some s)
    (hp : s.handler.pc = .head) (k : Nat) :
    ∃ s', (machine c).run (tr ++ List.replicate k (.handler .count)) = some s' ∧
      s'.indexer = s.indexer ∧ s'.handler.pc = .head := by
  induction k with
  | zero => exact ⟨s, by simpa using h, rfl, hp⟩
  | succ k ih =>
    obtain ⟨t, ht, hi, hq⟩ := ih
    have hl : RPCHandler.step c.rpcLatency t.handler .count =
        some { t.handler with pc := .head } := by
      simp [RPCHandler.step, hc, hq]
    refine ⟨{ t with
      handler := { t.handler with pc := .head }
      shared := handlerEffect t.shared .count }, ?_, hi, rfl⟩
    rw [List.replicate_succ', ← List.append_assoc]
    exact (Machine.run_snoc _ _ _ _).mpr ⟨t, ht, step_handler.mpr ⟨_, hl, rfl⟩⟩

/-- Four requests taken, and 2^64 counted in all: the counter is back at 0. -/
theorem handled_exceeds_recvd :
    ¬ ∀ (c : Setup) (tr : List Label) (s : Pipeline), (machine c).run tr = some s →
      s.indexer.handledReqCnt ≤ s.shared.recvdReqCnt := by
  intro hall
  obtain ⟨tr, t, ht, hcount, hp, hi⟩ : ∃ tr t, (machine (exampleSetup false)).run tr = some t ∧
      received tr = 4 ∧ t.handler.pc = .head ∧ t.indexer.handledReqCnt = 4 :=
    ⟨List.replicate 4 (.handler .count) ++ [.indexer .wrap, .indexer (.load 4 (some 4))],
      _, rfl, rfl, rfl, rfl⟩
  obtain ⟨s, hs, hi', _⟩ := run_counts rfl ht hp (2 ^ 64 - 4)
  have hle := hall _ _ s hs
  rw [recvdReqCnt_eq hs, hi', hi, received, List.count_append, List.count_replicate_self,
    ← received, hcount] at hle
  revert hle
  decide

/-! ## Arrival times -/

/-- Stores to the log of arrival times: slot and time. -/
def stores (tr : List Label) : List (Nat × Nat) :=
  tr.filterMap fun
    | .handler (.store k t) => some (k, t)
    | _ => none

theorem stores_eq (tr : List Label) : stores tr = RPCHandler.stores (tr.filterMap ofHandler) := by
  rw [RPCHandler.stores, stores, List.filterMap_filterMap]
  congr 1
  funext l
  rcases l with (_ | _ | _) | _ | _ | _ <;> rfl

theorem stores_append (tr tr' : List Label) : stores (tr ++ tr') = stores tr ++ stores tr' :=
  List.filterMap_append

theorem handler_inv (hc : c.rpcLatency = true) (h : (machine c).run tr = some s) :
    RPCHandler.Inv (tr.filterMap ofHandler) s.handler := by
  have hr := handler_run h
  rw [hc] at hr
  exact RPCHandler.inv hr

/-- The slots are filled in order, each once: the `k`-th store is to slot `k`. -/
theorem stores_slot (hc : c.rpcLatency = true) (h : (machine c).run tr = some s) {j k t : Nat}
    (hj : (stores tr)[j]? = some (k, t)) : j = k := by
  have hs := congrArg (·[j]?) (handler_inv hc h).slots
  simp only [← stores_eq, List.getElem?_map, hj, Option.map_some] at hs
  obtain ⟨_, hk⟩ := List.getElem?_eq_some_iff.mp hs.symm
  rwa [List.getElem_range] at hk

/-- What has been stored is still there. -/
theorem logArr_eq (hc : c.rpcLatency = true) (h : (machine c).run tr = some s) :
    ∀ p ∈ stores tr, s.shared.logArr p.1 = p.2 := by
  refine Machine.run_induction (P := fun tr s => ∀ p ∈ stores tr, s.shared.logArr p.1 = p.2)
    (fun p hp => absurd hp List.not_mem_nil) ?_ h
  intro tr s l s' hrun ih hl p hp
  rw [stores_append, List.mem_append] at hp
  cases l with
  | handler l =>
    obtain ⟨t, ht, rfl⟩ := step_handler.mp hl
    cases l with
    | store k u =>
      simp only [RPCHandler.step, Option.ite_none_right_eq_some] at ht
      simp only [handlerEffect]
      rcases hp with hp | hp
      · -- the slot now filled is past all filled before
        have hmem := List.mem_map_of_mem (f := Prod.fst) hp
        rw [stores_eq, (handler_inv hc hrun).slots, List.mem_range] at hmem
        rw [Function.update_of_ne (by omega)]
        exact ih p hp
      · rw [List.mem_singleton.mp hp]
        exact Function.update_self _ _ _
    | _ => exact ih p (hp.resolve_right List.not_mem_nil)
  | indexer l =>
    obtain ⟨t, _, m, hm, rfl⟩ := step_indexer.mp hl
    simp only [(indexerEffect_frame hm).2.1]
    exact ih p (hp.resolve_right List.not_mem_nil)
  | prefetcher l =>
    obtain ⟨t, _, m, hm, rfl⟩ := step_prefetcher.mp hl
    simp only [(prefetcherEffect_frame hm).2]
    exact ih p (hp.resolve_right List.not_mem_nil)
  | spawner l =>
    obtain ⟨t, _, m, hm, rfl⟩ := step_spawner.mp hl
    simp only [(spawnerEffect_frame hm).2.1]
    exact ih p (hp.resolve_right List.not_mem_nil)

/-- A record is dispatched only after its request has been counted. -/
theorem dispatched_lt_received (h : (machine c).run tr = some s)
    (hp : s.spawner.pc = .dispatch) (hi : s.spawner.i < s.spawner.batchSz) :
    (dispatched tr).length < received tr := by
  have hd := Spawner.length_dispatched (spawner_run h)
  rw [← dispatched_eq, ← takenPrefDisp_eq, Spawner.todo, hp] at hd
  have hle := sum_le_of_isPrefix ((taken_isPrefix h).trans
    ((takenIdxPref_isPrefix h).trans (pushedIdxPref_isPrefix h)))
  have hr := taken_le_received h
  simp only at hd
  omega

/-- **Arrival times.**  In the `RPC_LATENCY` build the `k`-th dispatch reads slot
`k` of the log, inside the log; the handler has stored the `k`-th arrival time
there and counted the request, the value read is that time, and no other store
of the run is to that slot. -/
theorem dispatch_reads_arrival (hc : c.rpcLatency = true) {pre post : List Label} {a : Nat}
    {r : Option (Nat × Nat)}
    (h : (machine c).run (pre ++ .spawner (.dispatch a r) :: post) = some s) :
    ∃ t, r = some ((dispatched pre).length, t) ∧
      (dispatched pre).length < rpcLogSize ∧
      (dispatched pre).length < received pre ∧
      (stores pre)[(dispatched pre).length]? = some ((dispatched pre).length, t) ∧
      ∀ (j u : Nat), (stores (pre ++ .spawner (.dispatch a r) :: post))[j]? =
        some ((dispatched pre).length, u) → j = (dispatched pre).length := by
  obtain ⟨s₀, s₁, hpre, hl, _⟩ := Machine.run_split h
  obtain ⟨t, ht, m, hm, _⟩ := step_spawner.mp hl
  simp only [Spawner.step, Option.ite_none_right_eq_some] at ht
  obtain ⟨⟨hp, hi, _, hslot⟩, _⟩ := ht
  have hrec := dispatched_lt_received hpre hp hi
  have hlog := received_le hc hpre
  have hlt : (dispatched pre).length < rpcLogSize := Nat.lt_of_lt_of_le hrec hlog
  -- the slot read is the number of dispatches before
  have hid : s₀.spawner.txnLogId = (dispatched pre).length := by
    have hrun := spawner_run hpre
    rw [hc] at hrun
    rw [Spawner.txnLogId_eq hrun, ← dispatched_eq,
      Nat.mod_eq_of_lt (Nat.lt_trans hlt (by decide))]
  -- that slot has been filled
  have hinv := handler_inv hc hpre
  have hlen : (stores pre).length = s₀.handler.i := by
    have := congrArg List.length hinv.slots
    rwa [List.length_map, ← stores_eq, List.length_range] at this
  have hcnt := hinv.counted
  rw [← received_eq] at hcnt
  obtain ⟨⟨k, u⟩, hk⟩ : ∃ p, (stores pre)[(dispatched pre).length]? = some p :=
    ⟨_, List.getElem?_eq_getElem (by omega)⟩
  obtain rfl := stores_slot hc hpre hk
  have hval := logArr_eq hc hpre _ (List.mem_of_getElem? hk)
  rw [hc, if_pos rfl, hid] at hslot
  obtain ⟨⟨k, v⟩, rfl, hkv⟩ := Option.map_eq_some_iff.mp hslot
  simp only at hkv hval
  subst hkv
  obtain ⟨rfl, _⟩ := Option.ite_none_right_eq_some.mp hm
  refine ⟨_, rfl, hlt, hrec, ?_, fun j u hj => stores_slot hc h hj⟩
  rw [hk, hval]

/-- One request, from its arrival to the point where it is dispatched. -/
def oneRequest : List Label :=
  [.handler (.store 0 7), .handler .count, .indexer .wrap, .indexer (.load 1 (some 1)),
    .indexer (.prepare 4), .indexer (.push 1), .prefetcher (.front (some 1)),
    .prefetcher (.prefetch 4), .prefetcher (.push 1), .prefetcher .pop,
    .spawner (.front (some 1)), .spawner (.prefetch 4), .spawner .exitPrefetch]

/-- The three batches again, up to the point where record 0 is dispatched once more. -/
def secondPass : List Label :=
  threeBatches ++ .prefetcher .pop ::
    [Spawner.Label.dispatch 132 (some (1, 8)), .dispatch 260 (some (2, 9)),
      .dispatch 388 (some (3, 10)), .pop, .front (some 1), .prefetch 4, .exitPrefetch].map .spawner

/-- The fifth dispatch reads the fifth arrival, though it is of record 0. -/
theorem dispatch_reads_arrival_example :
    ∃ s, (machine (exampleSetup true)).run (secondPass ++ [.spawner (.dispatch 4 (some (4, 11)))]) =
      some s ∧ (dispatched secondPass).length = 4 ∧ (stores secondPass)[4]? = some (4, 11) := by
  refine ⟨_, rfl, rfl, ?_⟩
  obtain ⟨t, hr, -, -, hs, -⟩ := @dispatch_reads_arrival (exampleSetup true) _ rfl secondPass []
    4 (some (4, 11)) rfl
  obtain rfl : 11 = t := (Prod.mk.inj (Option.some.inj hr)).2
  exact hs

end Doradd.Pipeline
