import Doradd.Lib.Machine
import Doradd.Dispatcher.Replay

/-!
# The loop shared by the stages

Indexer, Prefetcher and Spawner each keep a cursor, test it against a limit
between batches and go through the records of a batch one at a time.  `Walker`
is that loop with its registers and byte addresses; each stage is a walker
through a projection of its labels.

* `walker_at`: while every batch fits, the cursor is at a record of the log and
  what has been visited, followed by what is left of the batch in hand, is the
  abstract replay of the batches taken;
* `walker_handled`: the same, batch by batch;
* `walker_passes`: what has been visited is a concatenation of passes from
  record 0;
* `walker_overrun`: a batch that does not fit takes the walker past the log,
  after every record of the log has been visited.
-/

namespace Doradd

open Lib

/-- Cursor, size of the batch taken last, records of it still to visit. -/
structure Walker where
  cursor : Cursor
  prev : Nat
  rem : Nat

namespace Walker

inductive Label
  | wrap
  | take (b : Nat)
  | visit (a : Nat)
  deriving DecidableEq

/-- `wrap` is the test between batches, `take b` the test and a batch of `b`
records, `visit a` one record at address `a`. -/
def step (log : Log) (lim : Nat → Nat) (s : Walker) : Label → Option Walker
  | .wrap =>
    if s.rem = 0 then some { s with cursor := s.cursor.wrap log (lim s.prev) } else none
  | .take b =>
    if s.rem = 0 then some ⟨s.cursor.wrap log (lim s.prev), b, b⟩ else none
  | .visit a =>
    if 0 < s.rem ∧ a = s.cursor.readHead then
      some { s with cursor := s.cursor.next log, rem := s.rem - 1 }
    else none

/-- `g` is the size that the first test uses. -/
def machine (log : Log) (lim : Nat → Nat) (g : Nat) : Machine Walker Label :=
  ⟨⟨log.at 0, g, 0⟩, step log lim⟩

/-! ## What a run has taken and visited -/

def taken (tr : List Label) : List Nat :=
  tr.filterMap fun
    | .take b => some b
    | _ => none

def visited (tr : List Label) : List Nat :=
  tr.filterMap fun
    | .visit a => some a
    | _ => none

/-- Append to the last list of a list of lists. -/
def extendLast (L : List (List Nat)) (x : List Nat) : List (List Nat) :=
  L.dropLast ++ (L.getLast?.map (· ++ x)).toList

def handle (L : List (List Nat)) : Label → List (List Nat)
  | .wrap => L
  | .take _ => L ++ [[]]
  | .visit a => extendLast L [a]

/-- The addresses visited, batch by batch. -/
def handled (tr : List Label) : List (List Nat) := tr.foldl handle []

section
variable (tr tr' : List Label) (b a : Nat)

theorem taken_append : taken (tr ++ tr') = taken tr ++ taken tr' := List.filterMap_append
@[simp] theorem taken_wrap : taken (tr ++ [.wrap]) = taken tr := by simp [taken]
@[simp] theorem taken_take : taken (tr ++ [.take b]) = taken tr ++ [b] := by simp [taken]
@[simp] theorem taken_visit : taken (tr ++ [.visit a]) = taken tr := by simp [taken]
@[simp] theorem visited_wrap : visited (tr ++ [.wrap]) = visited tr := by simp [visited]
@[simp] theorem visited_take : visited (tr ++ [.take b]) = visited tr := by simp [visited]
@[simp] theorem visited_visit : visited (tr ++ [.visit a]) = visited tr ++ [a] := by
  simp [visited]
@[simp] theorem handled_wrap : handled (tr ++ [.wrap]) = handled tr := by simp [handled, handle]
@[simp] theorem handled_take : handled (tr ++ [.take b]) = handled tr ++ [[]] := by
  simp [handled, handle]
@[simp] theorem handled_visit : handled (tr ++ [.visit a]) = extendLast (handled tr) [a] := by
  simp [handled, handle]

theorem extendLast_snoc (L : List (List Nat)) (l x : List Nat) :
    extendLast (L ++ [l]) x = L ++ [l ++ x] := by
  simp [extendLast]

theorem extendLast_nil (L : List (List Nat)) : extendLast L [] = L := by
  rcases List.eq_nil_or_concat L with rfl | ⟨L, l, rfl⟩
  · rfl
  · rw [List.concat_eq_append, extendLast_snoc, List.append_nil]

theorem extendLast_extendLast (L : List (List Nat)) (x y : List Nat) :
    extendLast (extendLast L x) y = extendLast L (x ++ y) := by
  rcases List.eq_nil_or_concat L with rfl | ⟨L, l, rfl⟩
  · rfl
  · rw [List.concat_eq_append, extendLast_snoc, extendLast_snoc, extendLast_snoc,
      List.append_assoc]

theorem length_extendLast (L : List (List Nat)) (x : List Nat) :
    (extendLast L x).length = L.length := by
  rcases List.eq_nil_or_concat L with rfl | ⟨L, l, rfl⟩
  · rfl
  · rw [List.concat_eq_append, extendLast_snoc, List.length_append, List.length_append]
    rfl

end

/-- Whether the batches fit or not, every record taken is visited once. -/
theorem length_visited {log : Log} {lim : Nat → Nat} {g : Nat} {tr : List Label} {s : Walker}
    (h : (machine log lim g).run tr = some s) : (visited tr).length + s.rem = (taken tr).sum := by
  refine Machine.run_induction (P := fun tr s => (visited tr).length + s.rem = (taken tr).sum)
    rfl ?_ h
  intro tr s l s' _ ih hl
  cases l <;>
    simp only [machine, step, Option.ite_none_right_eq_some, Option.some.injEq] at hl
  case wrap => obtain ⟨_, rfl⟩ := hl; simpa using ih
  case take =>
    obtain ⟨hr, rfl⟩ := hl
    rw [hr, Nat.add_zero] at ih
    simp [ih]
  case visit =>
    obtain ⟨⟨hr, _⟩, rfl⟩ := hl
    simp only [visited_visit, taken_visit, List.length_append, List.length_singleton]
    omega

/-! ## Inside the log -/

variable {log : Log} {lim : Nat → Nat} {g : Nat} {tr : List Label} {s s' : Walker}

/-- The walker stands at record `e`, and the batches it has taken, replayed
abstractly, give what it has visited followed by the rest of the batch in hand. -/
structure Tracks (log : Log) (lim : Nat → Nat) (g : Nat) (tr : List Label) (s : Walker)
    (e : Nat) : Prop where
  cursor : s.cursor = log.at e
  bound : e + s.rem ≤ log.readCount
  start : (⟨s.prev, e + s.rem⟩ : Pos).start lim =
    (Pos.after lim ⟨g, 0⟩ (taken tr)).start lim
  handled : extendLast (handled tr) ((List.range' e s.rem).map log.record) =
    (Pos.batches lim ⟨g, 0⟩ (taken tr)).map (List.map log.record)
  visited : visited tr ++ (List.range' e s.rem).map log.record =
    (Pos.visits lim ⟨g, 0⟩ (taken tr)).map log.record
  covers : ∀ d < e, log.record d ∈ Walker.visited tr

theorem tracks_init (log : Log) (lim : Nat → Nat) (g : Nat) :
    Tracks log lim g [] (machine log lim g).init 0 where
  cursor := rfl
  bound := Nat.zero_le _
  start := rfl
  handled := rfl
  visited := rfl
  covers := fun d hd => absurd hd (Nat.not_lt_zero d)

/-- Between two batches: the wrap test keeps the invariant. -/
theorem Tracks.wrap {e : Nat} (h : Tracks log lim g tr s e) (hr : s.rem = 0) :
    Tracks log lim g (tr ++ [.wrap]) { s with cursor := s.cursor.wrap log (lim s.prev) }
      ((⟨s.prev, e⟩ : Pos).start lim) where
  cursor := by rw [h.cursor, Cursor.wrap_at]; rfl
  bound := by
    have hs := Pos.start_le lim ⟨s.prev, e⟩
    have hb := h.bound
    simp only at hs ⊢
    omega
  start := by
    have hst := h.start
    simp only [hr, Nat.add_zero] at hst ⊢
    rw [Pos.start_start ⟨s.prev, e⟩, hst, taken_wrap]
  handled := by simpa [hr] using h.handled
  visited := by simpa [hr] using h.visited
  covers := by
    intro d hd
    rw [visited_wrap]
    exact h.covers d (Nat.lt_of_lt_of_le hd (Pos.start_le _ _))

theorem Tracks.take {e b : Nat} (h : Tracks log lim g tr s e) (hr : s.rem = 0)
    (hf : (Pos.after lim ⟨g, 0⟩ (taken tr)).start lim + b ≤ log.readCount) :
    Tracks log lim g (tr ++ [.take b]) ⟨s.cursor.wrap log (lim s.prev), b, b⟩
      ((⟨s.prev, e⟩ : Pos).start lim) := by
  have hst := h.start
  rw [hr, Nat.add_zero] at hst
  constructor
  · rw [h.cursor, Cursor.wrap_at]
    rfl
  · rw [hst]
    exact hf
  · rw [taken_take, Pos.after_snoc, hst]
    rfl
  · have hh := h.handled
    rw [hr, List.range'_zero, List.map_nil, extendLast_nil] at hh
    rw [handled_take, extendLast_snoc, List.nil_append, taken_take, Pos.batches_snoc, hst, hh,
      List.map_append]
    rfl
  · have hv := h.visited
    rw [hr, List.range'_zero, List.map_nil, List.append_nil] at hv
    rw [visited_take, taken_take, Pos.visits_snoc, hst, hv, List.map_append]
  · intro d hd
    rw [visited_take]
    exact h.covers d (Nat.lt_of_lt_of_le hd (Pos.start_le _ _))

theorem Tracks.visit {e a : Nat} (h : Tracks log lim g tr s e) (hr : 0 < s.rem)
    (ha : a = s.cursor.readHead) :
    Tracks log lim g (tr ++ [.visit a])
      { s with cursor := s.cursor.next log, rem := s.rem - 1 } (e + 1) := by
  obtain ⟨r, hr⟩ : ∃ r, s.rem = r + 1 := ⟨s.rem - 1, by omega⟩
  have hb := h.bound
  have hae : a = log.record e := by rw [ha, h.cursor, Log.at_readHead]
  have hrange : List.range' e s.rem = e :: List.range' (e + 1) (s.rem - 1) := by
    rw [hr, List.range'_succ, Nat.add_sub_cancel]
  have hsum : e + 1 + (s.rem - 1) = e + s.rem := by omega
  constructor
  · rw [h.cursor]
    exact Cursor.next_at log e (by omega)
  · rw [hsum]
    exact hb
  · rw [taken_visit, hsum]
    exact h.start
  · have hh := h.handled
    rw [hrange, List.map_cons] at hh
    rw [handled_visit, extendLast_extendLast, taken_visit, hae]
    exact hh
  · have hv := h.visited
    rw [hrange, List.map_cons] at hv
    rw [visited_visit, taken_visit, List.append_assoc, hae]
    exact hv
  · intro d hd
    rw [visited_visit, List.mem_append, List.mem_singleton, hae]
    rcases Nat.lt_or_ge d e with hlt | hge
    · exact Or.inl (h.covers d hlt)
    · exact Or.inr (by rw [show d = e by omega])

/-- **While every batch fits, the walker follows the abstract replay.** -/
theorem walker_at (h : (machine log lim g).run tr = some s)
    (hf : Pos.Fits lim log.readCount ⟨g, 0⟩ (taken tr)) : ∃ e, Tracks log lim g tr s e := by
  revert hf
  refine Machine.run_induction (P := fun tr s => Pos.Fits lim log.readCount ⟨g, 0⟩ (taken tr) →
    ∃ e, Tracks log lim g tr s e) ?_ ?_ h
  · intro _
    exact ⟨0, tracks_init log lim g⟩
  · intro tr s l s' _ ih hl hf
    cases l with
    | wrap =>
      rw [taken_wrap] at hf
      obtain ⟨e, he⟩ := ih hf
      simp only [machine, step, Option.ite_none_right_eq_some, Option.some.injEq] at hl
      obtain ⟨hr, rfl⟩ := hl
      exact ⟨_, he.wrap hr⟩
    | take b =>
      rw [taken_take, Pos.fits_snoc] at hf
      obtain ⟨e, he⟩ := ih hf.1
      simp only [machine, step, Option.ite_none_right_eq_some, Option.some.injEq] at hl
      obtain ⟨hr, rfl⟩ := hl
      exact ⟨_, he.take hr hf.2⟩
    | visit a =>
      rw [taken_visit] at hf
      obtain ⟨e, he⟩ := ih hf
      simp only [machine, step, Option.ite_none_right_eq_some, Option.some.injEq] at hl
      obtain ⟨⟨hr, ha⟩, rfl⟩ := hl
      exact ⟨_, he.visit hr ha⟩

/-- What has been visited is a prefix of the replay of the batches taken. -/
theorem Tracks.visited_isPrefix {e : Nat} (h : Tracks log lim g tr s e) :
    Walker.visited tr <+: (Pos.visits lim ⟨g, 0⟩ (taken tr)).map log.record :=
  ⟨_, h.visited⟩

/-- With no batch in hand everything taken has been visited. -/
theorem Tracks.visited_idle {e : Nat} (h : Tracks log lim g tr s e) (hr : s.rem = 0) :
    Walker.visited tr = (Pos.visits lim ⟨g, 0⟩ (taken tr)).map log.record := by
  simpa [hr] using h.visited

/-- The `k`-th batch as handled so far is a prefix of the `k`-th batch of the
replay, and all of it once the walker is past it or has nothing left of it. -/
theorem Tracks.handled_get {e k : Nat} {xs : List Nat} (h : Tracks log lim g tr s e)
    (hx : (Walker.handled tr)[k]? = some xs) :
    ∃ ys, (Pos.batches lim ⟨g, 0⟩ (taken tr))[k]? = some ys ∧ xs <+: ys.map log.record ∧
      (k + 1 < (Walker.handled tr).length ∨ s.rem = 0 → xs = ys.map log.record) := by
  have hh := h.handled
  rcases List.eq_nil_or_concat (Walker.handled tr) with hn | ⟨L, l, hn⟩
  · simp [hn] at hx
  · rw [List.concat_eq_append] at hn
    rw [hn, extendLast_snoc] at hh
    have hk : (L ++ [l ++ (List.range' e s.rem).map log.record])[k]? =
        ((Pos.batches lim ⟨g, 0⟩ (taken tr))[k]?).map (List.map log.record) := by
      rw [hh, List.getElem?_map]
    rw [hn] at hx
    rcases Nat.lt_trichotomy k L.length with hlt | heq | hgt
    · rw [List.getElem?_append_left hlt] at hx hk
      rw [hx] at hk
      obtain ⟨ys, hys, he⟩ := Option.map_eq_some_iff.mp hk.symm
      exact ⟨ys, hys, he ▸ List.prefix_rfl, fun _ => he.symm⟩
    · subst heq
      simp only [List.getElem?_concat_length, Option.some.injEq] at hx hk
      subst hx
      obtain ⟨ys, hys, he⟩ := Option.map_eq_some_iff.mp hk.symm
      refine ⟨ys, hys, ⟨_, he.symm⟩, ?_⟩
      rintro (hlen | hr)
      · rw [hn, List.length_append, List.length_singleton] at hlen
        omega
      · rw [he, hr, List.range'_zero, List.map_nil, List.append_nil]
    · rw [List.getElem?_eq_none (by rw [List.length_append, List.length_singleton]; omega)] at hx
      cases hx

theorem length_handled (tr : List Label) : (Walker.handled tr).length = (taken tr).length := by
  induction tr using List.reverseRecOn with
  | nil => rfl
  | append_singleton tr l ih =>
    cases l with
    | wrap => rw [handled_wrap, taken_wrap, ih]
    | take b =>
      rw [handled_take, taken_take, List.length_append, List.length_append, ih]
      rfl
    | visit a => rw [handled_visit, taken_visit, length_extendLast, ih]

/-! ## Passes -/

/-- One wrap test on a history of passes: the test either closes the current
pass, which then has passed the limit, or changes nothing. -/
theorem passes_wrap {n e : Nat} (limit : Nat) {P : Nat → Prop} {ms vs : List Nat} (he : e ≤ n)
    (hP : limit < e → P e) (hm : ∀ m ∈ ms, P m ∧ m ≤ n)
    (hv : vs = ms.flatMap List.range ++ List.range e) :
    ∃ ms' : List Nat, (∀ m ∈ ms', P m ∧ m ≤ n) ∧
      vs = ms'.flatMap List.range ++ List.range (if limit < e then 0 else e) := by
  by_cases hl : limit < e
  · refine ⟨ms ++ [e], ?_, ?_⟩
    · intro m hm'
      rcases List.mem_append.mp hm' with h | h
      · exact hm m h
      · rw [List.mem_singleton.mp h]
        exact ⟨hP hl, he⟩
    · rw [if_pos hl, hv]
      simp
  · exact ⟨ms, hm, by rw [if_neg hl]; exact hv⟩

/-- **Passes.**  What has been visited is a list of passes from record 0, each
of which ended past a limit and inside the log, and the current pass. -/
theorem walker_passes (h : (machine log lim g).run tr = some s)
    (hf : Pos.Fits lim log.readCount ⟨g, 0⟩ (taken tr)) :
    ∃ ms : List Nat, (∀ m ∈ ms, (∃ p, lim p < m) ∧ m ≤ log.readCount) ∧
      Walker.visited tr = (ms.flatMap List.range ++ List.range s.cursor.idx).map log.record := by
  revert hf
  refine Machine.run_induction (P := fun tr s => Pos.Fits lim log.readCount ⟨g, 0⟩ (taken tr) →
    ∃ ms : List Nat, (∀ m ∈ ms, (∃ p, lim p < m) ∧ m ≤ log.readCount) ∧
      Walker.visited tr = (ms.flatMap List.range ++ List.range s.cursor.idx).map log.record)
    ?_ ?_ h
  · intro _
    exact ⟨[], by simp, rfl⟩
  · intro tr s l s' hrun ih hl hf
    have hf' : Pos.Fits lim log.readCount ⟨g, 0⟩ (taken tr) := by
      refine hf.mono ?_
      rw [taken_append]
      exact List.prefix_append _ _
    obtain ⟨e, he⟩ := walker_at hrun hf'
    obtain ⟨ms, hm, hv⟩ := ih hf'
    rw [he.cursor, Log.at_idx] at hv
    have hle : e ≤ log.readCount := Nat.le_trans (Nat.le_add_right e s.rem) he.bound
    have hw := passes_wrap (lim s.prev) hle (fun h => ⟨s.prev, h⟩) hm rfl
    obtain ⟨ms', hm', hv'⟩ := hw
    cases l with
    | wrap =>
      simp only [machine, step, Option.ite_none_right_eq_some, Option.some.injEq] at hl
      obtain ⟨hr, rfl⟩ := hl
      refine ⟨ms', hm', ?_⟩
      rw [visited_wrap, hv, hv', he.cursor, Cursor.wrap_at, Log.at_idx]
    | take b =>
      simp only [machine, step, Option.ite_none_right_eq_some, Option.some.injEq] at hl
      obtain ⟨hr, rfl⟩ := hl
      refine ⟨ms', hm', ?_⟩
      rw [visited_take, hv, hv', he.cursor, Cursor.wrap_at, Log.at_idx]
    | visit a =>
      simp only [machine, step, Option.ite_none_right_eq_some, Option.some.injEq] at hl
      obtain ⟨⟨hr, rfl⟩, rfl⟩ := hl
      have hb := he.bound
      refine ⟨ms, hm, ?_⟩
      rw [visited_visit, hv, he.cursor, Cursor.next_at log e (by omega), Log.at_idx,
        Log.at_readHead, List.range_succ, ← List.append_assoc, ← List.map_singleton,
        ← List.map_append]

/-! ## Past the log -/

/-- A batch that does not fit is in hand, or has already led to record `n`. -/
def PastEnd (log : Log) (tr : List Label) (s : Walker) : Prop :=
  (∀ d ≤ log.readCount, log.record d ∈ visited tr) ∨
  ∃ e, s.cursor = log.at e ∧ e ≤ log.readCount ∧ log.readCount < e + s.rem ∧
    ∀ d < e, log.record d ∈ visited tr

theorem PastEnd.idle (h : PastEnd log tr s) (hr : s.rem = 0) :
    ∀ d ≤ log.readCount, log.record d ∈ visited tr := by
  rcases h with h | ⟨e, _, he, hlt, _⟩
  · exact h
  · omega

theorem PastEnd.visit {a : Nat} (h : PastEnd log tr s) (hr : 0 < s.rem)
    (ha : a = s.cursor.readHead) :
    PastEnd log (tr ++ [.visit a])
      { s with cursor := s.cursor.next log, rem := s.rem - 1 } := by
  rcases h with h | ⟨e, hc, he, hlt, hcov⟩
  · refine Or.inl fun d hd => ?_
    rw [visited_visit, List.mem_append]
    exact Or.inl (h d hd)
  · have hae : a = log.record e := by rw [ha, hc, Log.at_readHead]
    have hcov' : ∀ d < e + 1, log.record d ∈ visited (tr ++ [.visit a]) := by
      intro d hd
      rw [visited_visit, List.mem_append, List.mem_singleton, hae]
      rcases Nat.lt_or_ge d e with hd' | hd'
      · exact Or.inl (hcov d hd')
      · exact Or.inr (by rw [show d = e by omega])
    rcases Nat.lt_or_ge e log.readCount with hlt' | hge
    · refine Or.inr ⟨e + 1, ?_, hlt', ?_, hcov'⟩
      · rw [hc]
        exact Cursor.next_at log e hlt'
      · simp only
        omega
    · exact Or.inl fun d hd => hcov' d (by omega)

/-- **A batch that does not fit takes the walker past the log**, and every
record of the log has been visited by then. -/
theorem walker_overrun (h : (machine log lim g).run tr = some s)
    (hf : ¬ Pos.Fits lim log.readCount ⟨g, 0⟩ (taken tr)) : PastEnd log tr s := by
  revert hf
  refine Machine.run_induction (P := fun tr s => ¬ Pos.Fits lim log.readCount ⟨g, 0⟩ (taken tr) →
    PastEnd log tr s) ?_ ?_ h
  · intro hf
    exact absurd trivial hf
  · intro tr s l s' hrun ih hl hf
    cases l with
    | wrap =>
      rw [taken_wrap] at hf
      simp only [machine, step, Option.ite_none_right_eq_some, Option.some.injEq] at hl
      refine Or.inl ?_
      rw [visited_wrap]
      exact (ih hf).idle hl.1
    | take b =>
      simp only [machine, step, Option.ite_none_right_eq_some, Option.some.injEq] at hl
      obtain ⟨hr, rfl⟩ := hl
      by_cases hf' : Pos.Fits lim log.readCount ⟨g, 0⟩ (taken tr)
      · -- the batch just taken is the first that does not fit
        obtain ⟨e, he⟩ := walker_at hrun hf'
        have hst := he.start
        rw [hr, Nat.add_zero] at hst
        rw [taken_take, Pos.fits_snoc, ← hst] at hf
        have hs := Pos.start_le lim ⟨s.prev, e⟩
        have hb := he.bound
        simp only at hs
        refine Or.inr ⟨(⟨s.prev, e⟩ : Pos).start lim, ?_, by omega, ?_, ?_⟩
        · rw [he.cursor, Cursor.wrap_at]
          rfl
        · have hn := mt (And.intro hf') hf
          simp only
          omega
        · intro d hd
          rw [visited_take]
          exact he.covers d (by omega)
      · refine Or.inl ?_
        rw [visited_take]
        exact (ih hf').idle hr
    | visit a =>
      rw [taken_visit] at hf
      simp only [machine, step, Option.ite_none_right_eq_some, Option.some.injEq] at hl
      obtain ⟨⟨hr, ha⟩, rfl⟩ := hl
      exact (ih hf).visit hr ha

end Walker

end Doradd
