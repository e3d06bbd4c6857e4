import Doradd.Dispatcher.FrontEnd
import Doradd.Dispatcher.Preparation

/-!
# The pipeline as a front end

The indexer writes the pointers of a record into the mapped log, and the spawner dispatches
it.

* `serves`: while no record is overlooked by the indexer, the records of the replay are
  dispatched in order, each of them prepared.
-/

namespace Doradd.Pipeline

open Lib

def frontEnd (c : Setup) : FrontEnd Pipeline Label where
  machine := machine c
  prepares
    | .indexer (.prepare a) => some a
    | _ => none
  dispatches
    | .spawner (.dispatch a _) => some a
    | _ => none

/-- The indexer's wrap tests come out as tests with `MAX_BATCH`. -/
def InStep (c : Setup) (tr : List Label) : Prop :=
  (Indexer.machine c.log c.batch).Along (Indexer.WrapsLikeMax c.log) (tr.filterMap ofIndexer)

variable {c : Setup} {tr : List Label} {s : Pipeline}

/-- While the indexer wraps as with `MAX_BATCH`, it prepares records of the log. -/
theorem prepared_inside (hn : maxBatch ≤ c.log.readCount) (h : (machine c).run tr = some s)
    (ha : InStep c tr) :
    ∃ ks : List Nat, (∀ k ∈ ks, k < c.log.readCount) ∧ prepared tr = ks.map c.log.record := by
  have hrun := indexer_run h
  have hwalk := Indexer.walks_along hrun (Indexer.wrapsAt_of_wrapsLikeMax hn ha)
  have hfit : Pos.Fits (spawnLimit c.log.readCount) c.log.readCount ⟨c.batch, 0⟩
      (Walker.taken ((tr.filterMap ofIndexer).filterMap Indexer.walk)) := by
    rw [Indexer.taken_walk]
    exact fits_spawn hn _ (Indexer.isBatches_taken hrun)
  obtain ⟨_, ht⟩ := Walker.walker_at hwalk hfit
  have hbegins := ht.visited_isPrefix
  rw [Indexer.visited_walk, ← prepared_eq] at hbegins
  obtain ⟨ks, hks, heq⟩ := FrontEnd.eq_map_of_isPrefix_map hbegins
  exact ⟨ks, fun k hk => hfit.visits_lt k (hks.subset hk), heq⟩

/-- **What the pipeline serves**: the replay of its batches, as far as it has got. -/
theorem serves (hn : maxBatch ≤ c.log.readCount) (h : (machine c).run tr = some s)
    (ha : InStep c tr) : ∃ es,
      es <+: (⟨0, 0⟩ : Pos).visits (spawnLimit c.log.readCount) (pushedIdxPref tr) ∧
      (frontEnd c).Serves c.log es tr := by
  obtain ⟨es, hes, hdisp⟩ := FrontEnd.eq_map_of_isPrefix_map (dispatched_isPrefix hn h)
  have hbegins := hes.trans (Pos.visits_isPrefix _ _
    ((taken_isPrefix h).trans (takenIdxPref_isPrefix h)))
  refine ⟨es, hbegins, hdisp, fun k hk => ?_, prepared_inside hn h ha, ?_⟩
  · exact (fits_spawn hn ⟨0, 0⟩ (isBatches_pushedIdxPref h)).visits_lt k (hbegins.subset hk)
  · intro pre l post a he hl
    rcases l with _ | _ | _ | (_ | _ | _ | _ | ⟨a', r⟩ | _)
    case spawner.dispatch =>
      obtain rfl := Option.some.inj hl
      exact prepared_of_wrapsLikeMax hn h ha pre _ r post he
    all_goals cases hl

end Doradd.Pipeline
