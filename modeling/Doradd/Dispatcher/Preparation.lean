import Doradd.Dispatcher.Refinement

/-!
# Is every record prepared before it is dispatched?

The indexer prepares records, the spawner dispatches them, and their wrap tests
differ: the indexer compares with the size of its previous batch, the spawner
with `MAX_BATCH`.

* `visits_covered`: for every list of batches, what the spawner's replay visits
  has been visited by the indexer's, except for the last record of the log;
* `prepared_first`: while the indexer's tests come out as tests with `MAX_BATCH`
  no record is dispatched unprepared, and in any run only the last one can be.
-/

namespace Doradd

open Lib

/-! ## Two replays of the same batches -/

variable {n g : Nat} {lim : Nat → Nat}

/-- Everything before the index has been visited since the start at record 0. -/
theorem Pos.covers (lim : Nat → Nat) (g : Nat) (bs : List Nat) :
    ∀ d < ((⟨g, 0⟩ : Pos).after lim bs).idx, d ∈ (⟨g, 0⟩ : Pos).visits lim bs := by
  induction bs using List.reverseRecOn with
  | nil => intro d hd; exact absurd hd (Nat.not_lt_zero d)
  | append_singleton bs b ih =>
    intro d hd
    rw [after_snoc, next] at hd
    rw [visits_snoc, List.mem_append, List.mem_range'_1]
    have hs := start_le lim (after lim ⟨g, 0⟩ bs)
    rcases Nat.lt_or_ge d ((after lim ⟨g, 0⟩ bs).start lim) with hlt | hge
    · exact Or.inl (ih d (by omega))
    · exact Or.inr ⟨hge, hd⟩

/-- The first batch is not compared with anything. -/
theorem Pos.visits_spawn_prev (n g i : Nat) (bs : List Nat) :
    (⟨g, i⟩ : Pos).visits (spawnLimit n) bs = (⟨0, i⟩ : Pos).visits (spawnLimit n) bs := by
  cases bs <;> rfl

/-- After a batch of `p` records the indexer's limit is `n - p`. -/
def IsIndexerLimit (n : Nat) (lim : Nat → Nat) : Prop := ∀ p, 1 ≤ p → p ≤ maxBatch → lim p = n - p

/-- How far the two replays can have drifted apart on `bs`: not at all; by the
single record `n - 3` taken last; or so far that the indexer has been through
everything but the last record. -/
inductive Drift (n g : Nat) (lim : Nat → Nat) (bs : List Nat) : Prop
  | sync (h : ((⟨g, 0⟩ : Pos).after lim bs).idx = ((⟨0, 0⟩ : Pos).after (spawnLimit n) bs).idx)
  | one (h : (⟨g, 0⟩ : Pos).after lim bs = ⟨1, n - 2⟩)
      (hs : ((⟨0, 0⟩ : Pos).after (spawnLimit n) bs).idx = 1)
  | most (h : ∀ d < n - 1, d ∈ (⟨g, 0⟩ : Pos).visits lim bs)

/-- Where the indexer starts its next batch. -/
theorem start_indexer (hl : IsIndexerLimit n lim) {bs : List Nat} (hb : IsBatches bs) :
    ((⟨g, 0⟩ : Pos).after lim bs).idx = 0 ∧ ((⟨g, 0⟩ : Pos).after lim bs).start lim = 0 ∨
    ∃ p, 1 ≤ p ∧ p ≤ maxBatch ∧ ((⟨g, 0⟩ : Pos).after lim bs).start lim =
      if n - p < ((⟨g, 0⟩ : Pos).after lim bs).idx then 0
      else ((⟨g, 0⟩ : Pos).after lim bs).idx := by
  rcases List.eq_nil_or_concat bs with rfl | ⟨cs, p, rfl⟩
  · exact Or.inl ⟨rfl, if_neg (Nat.not_lt_zero _)⟩
  · rw [List.concat_eq_append, isBatches_append, isBatches_singleton] at hb
    refine Or.inr ⟨p, hb.2.1, hb.2.2, ?_⟩
    rw [List.concat_eq_append, Pos.after_snoc, Pos.start, Pos.next, hl p hb.2.1 hb.2.2]

theorem start_one (hl : IsIndexerLimit n lim) :
    (⟨1, n - 2⟩ : Pos).start lim = n - 2 := by
  rw [Pos.start, hl 1 (Nat.le_refl 1) (by decide)]
  exact if_neg (by simp only; omega)

/-- Unless the indexer has been through nearly everything, it starts its next
batch no earlier than the spawner. -/
theorem Drift.start_le (hn : maxBatch ≤ n) (hl : IsIndexerLimit n lim) {bs : List Nat}
    (hb : IsBatches bs) (h : Drift n g lim bs) :
    ((⟨0, 0⟩ : Pos).after (spawnLimit n) bs).start (spawnLimit n) ≤
      ((⟨g, 0⟩ : Pos).after lim bs).start lim ∨
    ∀ d < n - 1, d ∈ (⟨g, 0⟩ : Pos).visits lim bs := by
  have hle := Pos.start_le (spawnLimit n) ((⟨0, 0⟩ : Pos).after (spawnLimit n) bs)
  cases h with
  | sync h =>
    refine Or.inl ?_
    rcases start_indexer (g := g) hl hb with ⟨hi, hs⟩ | ⟨p, hp, hp', hs⟩
    · omega
    · simp only [maxBatch] at hp'
      rw [hs, h, Pos.start, spawnLimit, maxBatch]
      split <;> split <;> omega
  | one h hs =>
    refine Or.inl ?_
    rw [h, start_one hl]
    simp only [maxBatch] at hn
    omega
  | most h => exact Or.inr h

theorem Drift.snoc (hn : maxBatch ≤ n) (hl : IsIndexerLimit n lim) {bs : List Nat} {b : Nat}
    (hb : IsBatches bs) (hb₁ : 1 ≤ b) (h : Drift n g lim bs) : Drift n g lim (bs ++ [b]) := by
  have hcov := Pos.covers lim g (bs ++ [b])
  rw [Pos.after_snoc, Pos.next] at hcov
  cases h with
  | sync h =>
    have hsync : ((⟨g, 0⟩ : Pos).after lim bs).start lim =
        ((⟨0, 0⟩ : Pos).after (spawnLimit n) bs).start (spawnLimit n) →
          Drift n g lim (bs ++ [b]) := by
      intro he
      refine .sync ?_
      rw [Pos.after_snoc, Pos.after_snoc, Pos.next, Pos.next, he]
    rcases start_indexer (g := g) hl hb with ⟨hi, hs⟩ | ⟨p, hp, hp', hs⟩
    · exact hsync (by rw [hs, Pos.start, ← h, hi, if_neg (Nat.not_lt_zero _)])
    · simp only [maxBatch] at hn hp'
      by_cases hI : n - p < ((⟨g, 0⟩ : Pos).after lim bs).idx
      · refine hsync ?_
        rw [hs, if_pos hI, Pos.start, ← h, spawnLimit, maxBatch, if_pos (by omega)]
      · rw [if_neg hI] at hs
        by_cases hS : n - 4 < ((⟨g, 0⟩ : Pos).after lim bs).idx
        · -- only the spawner wraps
          rw [hs] at hcov
          rcases Nat.lt_or_ge (((⟨g, 0⟩ : Pos).after lim bs).idx + b) (n - 1) with hlt | hge
          · obtain rfl : b = 1 := by omega
            refine .one ?_ ?_
            · rw [Pos.after_snoc, Pos.next, hs]
              congr 1
              omega
            · rw [Pos.after_snoc, Pos.next, Pos.start, ← h, spawnLimit, maxBatch, if_pos hS]
          · exact .most fun d hd => hcov d (Nat.lt_of_lt_of_le hd hge)
        · refine hsync ?_
          rw [hs, Pos.start, ← h, spawnLimit, maxBatch, if_neg hS]
  | one h hs =>
    refine .most fun d hd => hcov d ?_
    rw [h, start_one hl]
    simp only
    omega
  | most h =>
    refine .most fun d hd => ?_
    rw [Pos.visits_snoc]
    exact List.mem_append_left _ (h d hd)

theorem drift (hn : maxBatch ≤ n) (hl : IsIndexerLimit n lim) {bs : List Nat}
    (hb : IsBatches bs) : Drift n g lim bs := by
  induction bs using List.reverseRecOn with
  | nil => exact .sync rfl
  | append_singleton bs b ih =>
    rw [isBatches_append, isBatches_singleton] at hb
    exact (ih hb.1).snoc hn hl hb.1 hb.2.1

/-- **What the spawner visits, the indexer has visited**, except for the last
record. -/
theorem visits_covered (hn : maxBatch ≤ n) (hl : IsIndexerLimit n lim) {bs : List Nat}
    (hb : IsBatches bs) :
    ∀ e ∈ (⟨0, 0⟩ : Pos).visits (spawnLimit n) bs,
      e ∈ (⟨g, 0⟩ : Pos).visits lim bs ∨ e = n - 1 := by
  induction bs using List.reverseRecOn with
  | nil => intro e he; cases he
  | append_singleton bs b ih =>
    intro e he
    have hlt := (fits_spawn hn ⟨0, 0⟩ hb).visits_lt e he
    have hcov := Pos.covers lim g (bs ++ [b])
    rw [isBatches_append, isBatches_singleton] at hb
    rw [Pos.after_snoc, Pos.next] at hcov
    rw [Pos.visits_snoc, List.mem_append, List.mem_range'_1] at he
    have hold : ∀ d, d ∈ (⟨g, 0⟩ : Pos).visits lim bs →
        d ∈ (⟨g, 0⟩ : Pos).visits lim (bs ++ [b]) := by
      intro d hd
      rw [Pos.visits_snoc]
      exact List.mem_append_left _ hd
    rcases he with he | he
    · exact (ih hb.1 e he).imp_left (hold e)
    · rcases (drift (g := g) hn hl hb.1).start_le hn hl hb.1 with hs | hmost
      · exact Or.inl (hcov e (by simp only; omega))
      · rcases Nat.lt_or_ge e (n - 1) with h | h
        · exact Or.inl (hold e (hmost e h))
        · exact Or.inr (by omega)

/-! ## What the indexer has prepared -/

namespace Indexer

variable {log : Log} {tr : List Label} {s : Indexer}

theorem prepared_append (tr tr' : List Label) :
    prepared (tr ++ tr') = prepared tr ++ prepared tr' := List.filterMap_append

/-- The batches pushed have been prepared, or the indexer has run past the end
of the log and has prepared all of it. -/
theorem prepared_pushed (h : (machine log g).run tr = some s)
    (ha : (machine log g).Along (WrapsAt log lim) tr) :
    (∀ e ∈ (⟨g, 0⟩ : Pos).visits lim (pushed tr), log.record e ∈ prepared tr) ∨
    ∀ d < log.readCount, log.record d ∈ prepared tr := by
  refine Machine.along_induction (P := fun tr _ =>
    (∀ e ∈ (⟨g, 0⟩ : Pos).visits lim (pushed tr), log.record e ∈ prepared tr) ∨
    ∀ d < log.readCount, log.record d ∈ prepared tr) ?_ ?_ h ha
  · exact Or.inl fun e he => absurd he List.not_mem_nil
  · intro tr s l s' hrun hat _ ih hl
    rw [prepared_append]
    by_cases hp : ∃ b, l = .push b
    · -- the batch in hand has been prepared by now
      obtain ⟨b, rfl⟩ := hp
      simp only [machine, step, Option.ite_none_right_eq_some] at hl
      obtain ⟨⟨hpc, hi, hb⟩, _⟩ := hl
      have hidle : s.todo = 0 := by
        simp only [todo, hpc]
        omega
      have htaken : pushed (tr ++ [.push b]) = taken tr := by
        rw [taken_eq hrun, pending, hpc, hb, pushed, List.filterMap_append]
        rfl
      have hwalk := walks_along hrun hat
      rw [htaken]
      simp only [List.mem_append]
      by_cases hf : Pos.Fits lim log.readCount ⟨g, 0⟩ (taken tr)
      · rw [← taken_walk] at hf
        obtain ⟨e, he⟩ := Walker.walker_at hwalk hf
        have hv := he.visited_idle hidle
        rw [taken_walk, visited_walk] at hv
        refine Or.inl fun e he => Or.inl ?_
        rw [hv]
        exact List.mem_map_of_mem he
      · rw [← taken_walk] at hf
        have hpast := (Walker.walker_overrun hwalk hf).idle hidle
        rw [visited_walk] at hpast
        exact Or.inr fun d hd => Or.inl (hpast d (Nat.le_of_lt hd))
    · have hpush : pushed (tr ++ [l]) = pushed tr := by
        rw [pushed, List.filterMap_append]
        cases l with
        | push b => exact absurd ⟨b, rfl⟩ hp
        | _ => exact List.append_nil _
      rw [hpush]
      exact ih.imp (fun h e he => List.mem_append_left _ (h e he))
        (fun h d hd => List.mem_append_left _ (h d hd))

theorem isIndexerLimit (hn : maxBatch ≤ log.readCount) :
    IsIndexerLimit log.readCount (wrapLimit log) :=
  fun _ _ hp => wsub_of_le log.readCount_lt (Nat.le_trans hp hn)

/-- What a step of the indexer should meet: its wrap test with the size of the
batch before comes out as the test with `MAX_BATCH`. -/
def WrapsLikeMax (log : Log) (s : Indexer) : Label → Prop
  | .wrap => wrapTest log s.batch s.cursor.idx ↔ wrapTest log maxBatch s.cursor.idx
  | _ => True

instance (log : Log) (s : Indexer) : (l : Label) → Decidable (WrapsLikeMax log s l)
  | .wrap => inferInstanceAs (Decidable ((_ : Nat) < _ ↔ (_ : Nat) < _))
  | .load _ _ | .prepare _ | .push _ => inferInstanceAs (Decidable True)

theorem wrapsAt_of_wrapsLikeMax (hn : maxBatch ≤ log.readCount)
    (ha : (machine log g).Along (WrapsLikeMax log) tr) :
    (machine log g).Along (WrapsAt log (spawnLimit log.readCount)) tr := by
  intro pre l post s he hr
  have hw := ha pre l post s he hr
  cases l with
  | wrap =>
    simp only [WrapsLikeMax, wrapTest, isIndexerLimit hn maxBatch (by decide) (Nat.le_refl _)] at hw
    exact hw
  | _ => trivial

end Indexer

/-! ## Preparation in the pipeline -/

namespace Pipeline

variable {c : Setup} {tr : List Label} {s : Pipeline}

/-- Records on which the indexer ran `prepare_cowns`. -/
def prepared (tr : List Label) : List Nat :=
  tr.filterMap fun
    | .indexer (.prepare a) => some a
    | _ => none

theorem prepared_eq (tr : List Label) :
    prepared tr = Indexer.prepared (tr.filterMap ofIndexer) := by
  rw [Indexer.prepared, prepared, List.filterMap_filterMap]
  congr 1
  funext l
  rcases l with _ | (_ | _ | _ | _) | _ | _ <;> rfl

/-- A record is dispatched from a batch that the indexer has pushed. -/
theorem dispatch_from_pushed (hn : maxBatch ≤ c.log.readCount) {pre post : List Label} {a : Nat}
    {r : Option (Nat × Nat)}
    (h : (machine c).run (pre ++ .spawner (.dispatch a r) :: post) = some s) :
    ∃ s₀, (machine c).run pre = some s₀ ∧ ∃ e < c.log.readCount, a = c.log.record e ∧
      e ∈ (⟨0, 0⟩ : Pos).visits (spawnLimit c.log.readCount) (pushedIdxPref pre) := by
  obtain ⟨s₀, s₁, hpre, _, hpost⟩ := Machine.run_split h
  have hmem := (dispatched_isPrefix hn hpost).subset
  have htaken : takenPrefDisp (pre ++ [.spawner (.dispatch a r)]) = takenPrefDisp pre := by
    simp [takenPrefDisp]
  rw [htaken] at hmem
  obtain ⟨e, he, hae⟩ := List.mem_map.mp (hmem (a := a) (by simp [dispatched]))
  have hsub := (Pos.visits_isPrefix (spawnLimit c.log.readCount) ⟨0, 0⟩
    ((taken_isPrefix hpre).trans (takenIdxPref_isPrefix hpre))).subset he
  exact ⟨s₀, hpre, e, (fits_spawn hn ⟨0, 0⟩ (isBatches_pushedIdxPref hpre)).visits_lt e hsub,
    hae.symm, hsub⟩

/-- Every dispatch comes after the preparation of its record. -/
def PreparedFirst (tr : List Label) : Prop :=
  ∀ pre a r post, tr = pre ++ .spawner (.dispatch a r) :: post → a ∈ prepared pre

theorem prepared_of_wrapsLikeMax (hn : maxBatch ≤ c.log.readCount)
    (h : (machine c).run tr = some s)
    (ha : (Indexer.machine c.log c.batch).Along (Indexer.WrapsLikeMax c.log)
      (tr.filterMap ofIndexer)) : PreparedFirst tr := by
  rintro pre a r post rfl
  obtain ⟨s₀, hpre, e, hlt, rfl, he⟩ := dispatch_from_pushed hn h
  have hat : (Indexer.machine c.log c.batch).Along (Indexer.WrapsLikeMax c.log)
      (pre.filterMap ofIndexer) := by
    rw [List.filterMap_append] at ha
    exact Machine.along_isPrefix ha
  rw [prepared_eq]
  rcases Indexer.prepared_pushed (indexer_run hpre) (Indexer.wrapsAt_of_wrapsLikeMax hn hat)
    with hall | hall
  · rw [Pos.visits_spawn_prev, ← pushedIdxPref_eq] at hall
    exact hall e he
  · exact hall e hlt

theorem prepared_or_last (hn : maxBatch ≤ c.log.readCount) {pre post : List Label} {a : Nat}
    {r : Option (Nat × Nat)}
    (h : (machine c).run (pre ++ .spawner (.dispatch a r) :: post) = some s) :
    a ∈ prepared pre ∨ a = c.log.record (c.log.readCount - 1) := by
  obtain ⟨s₀, hpre, e, hlt, rfl, he⟩ := dispatch_from_pushed hn h
  rw [prepared_eq]
  rcases Indexer.prepared_pushed (indexer_run hpre) (Indexer.wrapsAt_wrapLimit _) with hall | hall
  · rw [← pushedIdxPref_eq] at hall
    rcases visits_covered hn (Indexer.isIndexerLimit hn) (isBatches_pushedIdxPref hpre) e he
      with hv | rfl
    · exact Or.inl (hall e hv)
    · exact Or.inr rfl
  · exact Or.inl (hall e hlt)

/-- **Preparation before dispatch.** -/
theorem prepared_first (hn : maxBatch ≤ c.log.readCount) (h : (machine c).run tr = some s) :
    ((Indexer.machine c.log c.batch).Along (Indexer.WrapsLikeMax c.log)
      (tr.filterMap ofIndexer) → PreparedFirst tr) ∧
    ∀ pre a r post, tr = pre ++ .spawner (.dispatch a r) :: post →
      a ∈ prepared pre ∨ a = c.log.record (c.log.readCount - 1) := by
  refine ⟨prepared_of_wrapsLikeMax hn h, ?_⟩
  rintro pre a r post rfl
  exact prepared_or_last hn h

/-- The labels of one batch of `b` records through all four threads: `h`
requests before it, the indexer starting at record `i`, the other two at `j`. -/
def batchLabels (log : Log) (h i j b : Nat) : List Label :=
  List.replicate b (.handler .count) ++
  (Indexer.batchLabels log h i b).map .indexer ++
  .prefetcher (.front (some b)) ::
    (List.range' j b).map (fun d => .prefetcher (.prefetch (log.record d))) ++
  [.prefetcher (.push b), .prefetcher .pop] ++
  (Spawner.batchLabels log j b).map .spawner

/-- Batches of 4, 1 and 2 on a log of six records: all threads wrap after the first one, and
records 0 to 2 are dispatched again. -/
theorem prepared_first_example :
    ∃ s, (machine (exampleSetup false)).run
        (batchLabels exampleLog 0 0 0 4 ++ batchLabels exampleLog 4 0 0 1 ++
          batchLabels exampleLog 5 1 1 2) = some s ∧
      PreparedFirst (batchLabels exampleLog 0 0 0 4 ++ batchLabels exampleLog 4 0 0 1 ++
        batchLabels exampleLog 5 1 1 2) :=
  ⟨_, rfl, (@prepared_first (exampleSetup false) (batchLabels exampleLog 0 0 0 4 ++
    batchLabels exampleLog 4 0 0 1 ++ batchLabels exampleLog 5 1 1 2) _ (by decide) rfl).1
      (Machine.along_of_checkAlong (by decide))⟩

/-- Batches of 3, 2 and 4 on a log of six records: the indexer does not wrap at
record 3 but at record 5, so it never prepares record 5, which the spawner
dispatches in its second pass. -/
theorem dispatched_unprepared :
    ¬ ∀ (c : Setup) (tr : List Label) (s : Pipeline), maxBatch ≤ c.log.readCount →
      (machine c).run tr = some s → PreparedFirst tr := by
  intro hall
  have hrun : ∃ s, (machine (exampleSetup false)).run
      (batchLabels exampleLog 0 0 0 3 ++ batchLabels exampleLog 3 3 0 2 ++
        batchLabels exampleLog 5 0 2 4) = some s := ⟨_, rfl⟩
  obtain ⟨s, hs⟩ := hrun
  have hmem := hall _ _ s (by decide) hs
    ((batchLabels exampleLog 0 0 0 3 ++ batchLabels exampleLog 3 3 0 2 ++
      batchLabels exampleLog 5 0 2 4).dropLast.dropLast)
    (exampleLog.record 5) none [.spawner .pop] rfl
  revert hmem
  decide

end Pipeline

end Doradd
