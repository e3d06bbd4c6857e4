import Doradd.Dispatcher.Preparation

/-!
# The first pass over the log

While no more than `read_count - MAX_BATCH` requests have arrived, no thread has wrapped,
and the batches only cut the records of the log in order.

* `visits_first_pass`: the first records of any replay;
* `inStep_of_received`: the indexer's wrap tests come out as tests with `MAX_BATCH`;
* `dispatched_first_pass`: the records were dispatched from the front, one by one.
-/

namespace Doradd

open Lib

theorem length_visits (lim : Nat → Nat) (p : Pos) (bs : List Nat) :
    (p.visits lim bs).length = bs.sum := by
  induction bs generalizing p with
  | nil => rfl
  | cons b bs ih =>
    have hrest := ih (p.next lim b)
    rw [Pos.visits] at hrest ⊢
    rw [Pos.batches, List.flatten_cons, List.length_append, hrest, List.length_range',
      List.sum_cons]

/-- **However the batches are cut**, a replay begins with the records in order. -/
theorem visits_first_pass {n : Nat} {bs es : List Nat} (hb : IsBatches bs)
    (h : es <+: (⟨0, 0⟩ : Pos).visits (spawnLimit n) bs) (hk : es.length ≤ n - maxBatch + 1) :
    es = List.range es.length := by
  induction bs using List.reverseRecOn with
  | nil =>
    obtain rfl := List.prefix_nil.mp h
    rfl
  | append_singleton bs b ih =>
    rw [isBatches_append, isBatches_singleton] at hb
    rcases Nat.lt_or_ge (n - maxBatch) bs.sum with hlong | hshort
    · -- the batches before go far enough
      refine ih hb.1 (List.prefix_of_prefix_length_le h ?_ ?_)
      · exact Pos.visits_isPrefix _ _ (List.prefix_append bs [b])
      · rw [length_visits]
        omega
    · obtain ⟨hv, hi⟩ := visits_spawn_short (n := n) hb.1 (by omega)
      have hstart : ((⟨0, 0⟩ : Pos).after (spawnLimit n) bs).start (spawnLimit n) = bs.sum := by
        rw [Pos.start, hi, if_neg (by simp only [spawnLimit]; omega)]
      have hjoin : List.range' 0 bs.sum ++ List.range' bs.sum b = List.range (bs.sum + b) := by
        have happ := @List.range'_append_1 0 bs.sum b
        rwa [Nat.zero_add, ← @List.range_eq_range' (bs.sum + b)] at happ
      rw [Pos.visits_snoc, hstart, hv, hjoin] at h
      have hlen := h.length_le
      rw [List.length_range] at hlen
      have htake := List.prefix_iff_eq_take.mp h
      rwa [List.take_range, Nat.min_eq_left hlen] at htake

namespace Indexer

variable {log : Log} {g : Nat} {tr : List Label} {s : Indexer}

/-- The record counter is no further than the records that were prepared. -/
theorem idx_le_prepared (h : (machine log g).run tr = some s) :
    s.cursor.idx ≤ (prepared tr).length := by
  refine Machine.run_induction (P := fun tr s => s.cursor.idx ≤ (prepared tr).length)
    (Nat.le_refl 0) ?_ h
  intro tr s l s' _ ih hl
  rw [prepared_append, List.length_append]
  rcases l with _ | ⟨v, _ | b⟩ | a | b <;>
    simp only [machine, step, Option.ite_none_right_eq_some, Option.some.injEq] at hl
  case wrap =>
    obtain ⟨_, rfl⟩ := hl
    simp only [Cursor.wrap]
    split
    · exact Nat.zero_le _
    · exact Nat.le_trans ih (Nat.le_add_right _ _)
  case prepare =>
    obtain ⟨_, rfl⟩ := hl
    have hmod : (s.cursor.idx + 1) % 2 ^ 32 ≤ s.cursor.idx + 1 := Nat.mod_le _ _
    exact Nat.le_trans hmod (Nat.add_le_add_right ih 1)
  all_goals
    obtain ⟨_, rfl⟩ := hl
    exact Nat.le_trans ih (Nat.le_add_right _ _)

theorem prepared_le_taken (h : (machine log g).run tr = some s) :
    (prepared tr).length ≤ (taken tr).sum := by
  have hlen := Walker.length_visited (indexer_walks h)
  rw [visited_walk, taken_walk] at hlen
  exact Nat.le.intro hlen

/-- The variable `batch` is set before the first record is counted. -/
theorem batch_set (h : (machine log g).run tr = some s) :
    (s.pc ≠ .prepare ∧ s.cursor.idx = 0) ∨ (1 ≤ s.batch ∧ s.batch ≤ maxBatch) := by
  refine Machine.run_induction (P := fun _ s =>
    (s.pc ≠ .prepare ∧ s.cursor.idx = 0) ∨ (1 ≤ s.batch ∧ s.batch ≤ maxBatch)) ?_ ?_ h
  · exact Or.inl ⟨Pc.noConfusion, rfl⟩
  · intro tr s l s' _ ih hl
    rcases l with _ | ⟨v, _ | b⟩ | a | b <;>
      simp only [machine, step, Option.ite_none_right_eq_some, Option.some.injEq] at hl
    case wrap =>
      obtain ⟨_, rfl⟩ := hl
      refine ih.imp_left fun hi => ⟨Pc.noConfusion, ?_⟩
      simp only [Cursor.wrap]
      split
      · rfl
      · exact hi.2
    case load.none =>
      obtain ⟨_, rfl⟩ := hl
      exact ih
    case load.some =>
      obtain ⟨⟨_, hb⟩, rfl⟩ := hl
      obtain ⟨h₁, h₂, -⟩ := checkAvailCnts_spec hb
      exact Or.inr ⟨h₁, h₂⟩
    case prepare =>
      obtain ⟨⟨hp, _⟩, rfl⟩ := hl
      exact Or.inr (ih.resolve_left fun hi => hi.1 hp)
    case push =>
      obtain ⟨⟨hp, _⟩, rfl⟩ := hl
      exact Or.inr (ih.resolve_left fun hi => hi.1 hp)

theorem wrapsLikeMax_of_taken (hn : maxBatch ≤ log.readCount)
    (h : (machine log g).run tr = some s) (hle : (taken tr).sum ≤ log.readCount - maxBatch) :
    (machine log g).Along (WrapsLikeMax log) tr := by
  rintro pre l post t rfl hr
  cases l with
  | wrap =>
    have hidx := Nat.le_trans (idx_le_prepared hr) (prepared_le_taken hr)
    have hsum : (taken pre).sum ≤ (taken (pre ++ .wrap :: post)).sum := by
      rw [taken, taken, List.filterMap_append, List.sum_append]
      exact Nat.le_add_right _ _
    have hlim := isIndexerLimit hn
    simp only [WrapsLikeMax, wrapTest]
    rcases batch_set hr with ⟨-, h₀⟩ | ⟨h₁, h₂⟩
    · rw [h₀]
      exact iff_of_false (Nat.not_lt_zero _) (Nat.not_lt_zero _)
    · rw [hlim _ h₁ h₂, hlim _ (by decide) (Nat.le_refl _)]
      exact iff_of_false (by omega) (by omega)
  | _ => trivial

end Indexer

namespace Pipeline

variable {c : Setup} {tr : List Label} {s : Pipeline}

/-- Before the log is replayed nothing wraps. -/
theorem inStep_of_received (hn : maxBatch ≤ c.log.readCount) (h : (machine c).run tr = some s)
    (hreq : received tr ≤ c.log.readCount - maxBatch) :
    (Indexer.machine c.log c.batch).Along (Indexer.WrapsLikeMax c.log)
      (tr.filterMap ofIndexer) := by
  refine Indexer.wrapsLikeMax_of_taken hn (indexer_run h) ?_
  rw [← taken_eq]
  exact Nat.le_trans (taken_le_received h) hreq

/-- **The first pass**: the records are dispatched from the front of the log. -/
theorem dispatched_first_pass (hn : maxBatch ≤ c.log.readCount) (h : (machine c).run tr = some s)
    (hreq : received tr ≤ c.log.readCount - maxBatch) :
    (dispatched tr).length ≤ received tr ∧
      dispatched tr = (List.range (dispatched tr).length).map c.log.record := by
  have hb := isBatches_takenPrefDisp h
  have hsum : (takenPrefDisp tr).sum ≤ received tr := by
    have hle := sum_le_of_isPrefix ((taken_isPrefix h).trans
      ((takenIdxPref_isPrefix h).trans (pushedIdxPref_isPrefix h)))
    exact Nat.le_trans hle (taken_le_received h)
  have hbegins := dispatched_isPrefix hn h
  rw [(visits_spawn_short hb (by omega)).1] at hbegins
  have hlen := hbegins.length_le
  rw [List.length_map, List.length_range'] at hlen
  refine ⟨Nat.le_trans hlen hsum, ?_⟩
  have htake := List.prefix_iff_eq_take.mp hbegins
  rwa [← List.map_take, ← List.range_eq_range', List.take_range, Nat.min_eq_left hlen] at htake

end Pipeline

end Doradd
