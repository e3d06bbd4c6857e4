import Doradd.Dispatcher.Walker

/-!
# Prefetcher

`Prefetcher::run` in the build with an indexer.  Unlike the spawner it makes its
wrap test on every poll of the ring, also when the ring is empty, and it pushes
the batch downstream before it pops it upstream.

* `prefetcher_walks`: through `walk` a run of the prefetcher is a run of a
  walker;
* `prefetcher_tracks`: so it stands at a record of the log and replays it.
-/

namespace Doradd

open Lib

/-- `pop` is the point between the push downstream and the pop upstream. -/
inductive Prefetcher.Pc
  | head
  | prefetch
  | pop
  deriving DecidableEq, Repr

/-- The variables of `Prefetcher::run`; `cursor` holds `idx` and `read_head`. -/
structure Prefetcher where
  pc : Prefetcher.Pc
  cursor : Cursor
  batchSz : Nat
  i : Nat
  deriving DecidableEq, Repr

namespace Prefetcher

/-- `front r` is the wrap test and one poll of the ring. -/
inductive Label
  | front (r : Option Nat)
  | prefetch (a : Nat)
  | push (b : Nat)
  | pop
  deriving DecidableEq, Repr

def step (log : Log) (s : Prefetcher) : Label → Option Prefetcher
  | .front none =>
    if s.pc = .head then some { s with cursor := s.cursor.wrap log log.wrapLimit } else none
  | .front (some b) =>
    if s.pc = .head then
      some ⟨.prefetch, s.cursor.wrap log log.wrapLimit, b, 0⟩
    else none
  | .prefetch a =>
    if s.pc = .prefetch ∧ s.i < s.batchSz ∧ a = s.cursor.readHead then
      some { s with cursor := s.cursor.next log, i := s.i + 1 }
    else none
  | .push b =>
    if s.pc = .prefetch ∧ ¬ s.i < s.batchSz ∧ b = s.batchSz then some { s with pc := .pop }
    else none
  | .pop => if s.pc = .pop then some { s with pc := .head } else none

def init (log : Log) : Prefetcher := ⟨.head, log.at 0, 0, 0⟩

def machine (log : Log) : Machine Prefetcher Label := ⟨init log, step log⟩

/-- The batches taken from the ring. -/
def batches (tr : List Label) : List Nat :=
  tr.filterMap fun
    | .front (some b) => some b
    | _ => none

/-- The records on which `prefetch_cowns` ran. -/
def prefetched (tr : List Label) : List Nat :=
  tr.filterMap fun
    | .prefetch a => some a
    | _ => none

/-- The batches handed to the spawner. -/
def pushed (tr : List Label) : List Nat :=
  tr.filterMap fun
    | .push b => some b
    | _ => none

/-- The batch taken and not yet pushed, if there is one. -/
def pending (s : Prefetcher) : List Nat :=
  match s.pc with
  | .prefetch => [s.batchSz]
  | _ => []

/-- The batch taken and not yet popped, if there is one. -/
def holding (s : Prefetcher) : List Nat :=
  match s.pc with
  | .head => []
  | _ => [s.batchSz]

/-! ## The prefetcher is a walker -/

/-- Records of the batch in hand that are still to be prefetched. -/
def todo (s : Prefetcher) : Nat :=
  match s.pc with
  | .prefetch => s.batchSz - s.i
  | _ => 0

def walk : Label → Option Walker.Label
  | .front none => some .wrap
  | .front (some b) => some (.take b)
  | .prefetch a => some (.visit a)
  | _ => none

theorem taken_walk (tr : List Label) : Walker.taken (tr.filterMap walk) = batches tr := by
  rw [Walker.taken, batches, List.filterMap_filterMap]
  congr 1
  funext l
  rcases l with (_ | _) | _ | _ | _ <;> rfl

theorem visited_walk (tr : List Label) : Walker.visited (tr.filterMap walk) = prefetched tr := by
  rw [Walker.visited, prefetched, List.filterMap_filterMap]
  congr 1
  funext l
  rcases l with (_ | _) | _ | _ | _ <;> rfl

variable {log : Log} {tr : List Label} {s : Prefetcher}

theorem prefetcher_walks (h : (machine log).run tr = some s) :
    (Walker.machine log (fun _ => log.wrapLimit) 0).run (tr.filterMap walk) =
      some ⟨s.cursor, s.batchSz, s.todo⟩ := by
  refine Machine.run_project (fun s : Prefetcher => (⟨s.cursor, s.batchSz, s.todo⟩ : Walker)) walk
    rfl ?_ h
  intro tr s l s' _ hl
  rcases l with (_ | b) | a | b | _ <;>
    simp only [machine, step, Option.ite_none_right_eq_some, Option.some.injEq] at hl
  case front.none =>
    obtain ⟨hp, rfl⟩ := hl
    simp [walk, todo, hp, Walker.machine, Walker.step]
  case front.some =>
    obtain ⟨hp, rfl⟩ := hl
    simp [walk, todo, hp, Walker.machine, Walker.step]
  case prefetch =>
    obtain ⟨⟨hp, hi, ha⟩, rfl⟩ := hl
    simp [walk, todo, hp, Walker.machine, Walker.step, ha, Nat.sub_sub]
    omega
  case push =>
    obtain ⟨⟨hp, hi, _⟩, rfl⟩ := hl
    simp [walk, todo, hp]
    omega
  case pop => obtain ⟨hp, rfl⟩ := hl; simp [walk, todo, hp]

/-- Every batch taken is pushed, or in hand. -/
theorem batches_eq (h : (machine log).run tr = some s) : batches tr = pushed tr ++ s.pending := by
  refine Machine.run_induction (P := fun tr s => batches tr = pushed tr ++ s.pending) rfl ?_ h
  intro tr s l s' _ ih hl
  rw [batches, pushed] at ih ⊢
  rw [List.filterMap_append, List.filterMap_append, ih]
  rcases l with (_ | b) | a | b | _ <;>
    simp only [machine, step, Option.ite_none_right_eq_some, Option.some.injEq] at hl
  case front.none => obtain ⟨hp, rfl⟩ := hl; simp [pending, hp]
  case front.some => obtain ⟨hp, rfl⟩ := hl; simp [pending, hp]
  case prefetch => obtain ⟨⟨hp, _⟩, rfl⟩ := hl; simp [pending, hp]
  case push => obtain ⟨⟨hp, _, hb⟩, rfl⟩ := hl; simp [pending, hp, hb]
  case pop => obtain ⟨hp, rfl⟩ := hl; simp [pending, hp]

theorem length_prefetched (h : (machine log).run tr = some s) :
    (prefetched tr).length + s.todo = (batches tr).sum := by
  rw [← visited_walk, ← taken_walk]
  exact Walker.length_visited (prefetcher_walks h)

theorem todo_le_pending (s : Prefetcher) : s.todo ≤ s.pending.sum := by
  unfold todo pending
  cases s.pc <;> simp

/-- With batches that `check_avail_cnts` may return, the prefetcher stands at a
record of the log and replays it. -/
theorem prefetcher_tracks (hn : maxBatch ≤ log.readCount) (h : (machine log).run tr = some s)
    (hb : IsBatches (batches tr)) :
    ∃ e, Walker.Tracks log (spawnLimit log.readCount) 0 (tr.filterMap walk)
      ⟨s.cursor, s.batchSz, s.todo⟩ e := by
  have hf := fits_spawn hn ⟨0, 0⟩ hb
  rw [← taken_walk, ← spawnLimit_eq hn] at hf
  rw [← spawnLimit_eq hn]
  exact Walker.walker_at (prefetcher_walks h) hf

/-- The labels of one batch of `b` records from record `e`, up to the push. -/
def batchLabels (log : Log) (e b : Nat) : List Label :=
  .front (some b) :: (List.range' e b).map (fun d => .prefetch (log.record d)) ++ [.push b]

end Prefetcher

end Doradd
