import Mathlib.Data.List.Count
import Doradd.Lib.Counting
import Doradd.Lib.RingBuffer
import Doradd.Lib.Totals
import Doradd.Prefetch.Naive

/-!
# Interleaved searches, by coroutines

A search is suspended whenever it is about to read, and the one at the front of a queue
goes on.  The queue is a ring, in which full looks like empty.

* `resume_ready`: whenever something is resumed, one search ends;
* `resume_gap`: as much is put into the ring as is taken from it;
* `coro_completes_iff`: which calls complete their lookups.
-/

namespace Doradd.Prefetch

open Lib

/-! ## prefetch/coro_bin_search/coro.h -/

/-- What a search has in its frame while it is suspended. -/
inductive Coro
  /-- in `initial_suspend` -/
  | start (first last : Nat) (val : Int)
  /-- in `co_await prefetch(*middle)` -/
  | awaiting (first len half middle : Nat) (val : Int)
  deriving DecidableEq, Repr

/-- What a search does next: it awaits a value, or calls back and returns. -/
inductive Next
  | suspend (c : Coro)
  | onFound (middle : Nat)
  | onNotFound
  deriving DecidableEq, Repr

namespace Coro

variable (v : List Int)

/-- The loop, up to where it awaits a value. -/
def loop (val : Int) (first len : Nat) : Except Fault Next :=
  if 0 < len then do
    let half := len / 2
    let middle := first + half
    -- the reference that is prefetched
    let _ ← readAt v middle
    pure (.suspend (.awaiting first len half middle val))
  else
    pure .onNotFound

/-- `CoroBinarySearch`, from where it is suspended. -/
def advance : Coro → Except Fault Next
  | start first last val => loop v val first (last - first)
  | awaiting first len half middle val => do
    let x ← readAt v middle
    let bounds := if x < val then (middle + 1, len - half - 1) else (first, half)
    if x = val then pure (.onFound middle) else loop v val bounds.1 bounds.2

end Coro

/-! ## prefetch/coro_bin_search/coro_infra.h -/

/-- `scheduler_queue`.  A handle is the number of the lookup it is for, unless it is null. -/
abbrev SchedulerQueue := RingBuffer (Option Nat)

namespace SchedulerQueue

def N : Nat := 256

def new : SchedulerQueue := ⟨0, 0, List.replicate N none⟩

def pushBack (q : SchedulerQueue) (h : Option Nat) : Except Fault SchedulerQueue := do
  let arr ← writeAt q.arr q.head h
  pure { q with arr, head := (q.head + 1) % N }

def popFront (q : SchedulerQueue) : Except Fault (Option Nat × SchedulerQueue) := do
  let result ← readAt q.arr q.tail
  pure (result, { q with tail := (q.tail + 1) % N })

def tryPopFront (q : SchedulerQueue) : Except Fault (Option Nat × SchedulerQueue) :=
  if q.head ≠ q.tail then popFront q else pure (none, q)

/-- `await_suspend`: what it returns is resumed. -/
def awaitSuspend (q : SchedulerQueue) (h : Option Nat) :
    Except Fault (Option Nat × SchedulerQueue) := do
  let q ← pushBack q h
  popFront q

/-- Before a call; whatever is in the slots. -/
def Idle (q : SchedulerQueue) : Prop := q.Gap N 0

end SchedulerQueue

/-- The scheduler, the frames that have been made, the `limit` of the throttler, the two
counts, and which callbacks have run: of which lookup, and whether it was `on_found`. -/
structure Multi where
  scheduler : SchedulerQueue
  frames : List (Option Coro)
  limit : Nat
  foundCount : Nat
  notFoundCount : Nat
  calls : List (Nat × Bool)

variable (v : List Int)

/-- A search calls back and returns: `on_task_done`, and its frame is destroyed. -/
def finish (s : Multi) (h : Nat) (found : Bool) : Except Fault Multi := do
  let frames ← writeAt s.frames h none
  pure { s with
    frames
    limit := s.limit + 1
    foundCount := if found then s.foundCount + 1 else s.foundCount
    notFoundCount := if found then s.notFoundCount else s.notFoundCount + 1
    calls := s.calls ++ [(h, found)] }

/-- `resume`: a search that is suspended hands over to the one at the front. -/
def resume : Nat → Option Nat → Multi → Except Fault Multi
  | 0, _, _ => .error .outOfFuel
  | fuel + 1, handle, s => do
    let h ← readSet handle
    let frame ← readSet (← readAt s.frames h)
    match ← frame.advance v with
    | .suspend c =>
      let frames ← writeAt s.frames h (some c)
      let (next, scheduler) ← s.scheduler.awaitSuspend handle
      resume fuel next { s with frames, scheduler }
    | .onFound _ => finish s h true
    | .onNotFound => finish s h false

/-- `if (limit == 0) scheduler.pop_front().resume();` -/
def makeRoom (fuel : Nat) (s : Multi) : Except Fault Multi :=
  if s.limit = 0 then do
    let (front, scheduler) ← s.scheduler.popFront
    resume v fuel front { s with scheduler }
  else pure s

/-- `scheduler.push_back(h); --limit;` -/
def enqueue (s : Multi) (h : Nat) : Except Fault Multi := do
  let scheduler ← s.scheduler.pushBack (some h)
  pure { s with scheduler, limit := s.limit - 1 }

/-- `throttler::spawn`, of a search that is made for it. -/
def spawn (fuel : Nat) (s : Multi) (key : Int) : Except Fault Multi := do
  let h := s.frames.length
  let s := { s with frames := s.frames ++ [some (.start 0 v.length key)] }
  let s ← makeRoom v fuel s
  enqueue s h

/-- `scheduler_queue::run` -/
def run (fuel : Nat) : Nat → Multi → Except Fault Multi
  | 0, _ => .error .outOfFuel
  | n + 1, s => do
    let (handle, scheduler) ← s.scheduler.tryPopFront
    let s := { s with scheduler }
    match handle with
    | some h => do
      let s ← resume v fuel (some h) s
      run fuel n s
    | none => pure s

/-- What a call returns, what it prints, and how it leaves things. -/
structure Report where
  result : Nat
  printed : Option String
  last : Multi

/-- `CoroMultiLookup`, with as many rounds of a loop as there is fuel. -/
def coroMultiLookup (fuel : Nat) (q : SchedulerQueue) (v lookups : List Int) (streams : Nat) :
    Except Fault Report := do
  let s ← lookups.foldlM (spawn v fuel) ⟨q, [], streams, 0, 0, []⟩
  let s ← run v fuel fuel s
  let found := s.foundCount
  let notFound := s.notFoundCount
  let all := found + notFound
  let printed := if all ≠ lookups.length
    then some s!"BUG: found {found}, not-found: {notFound} total {all}\n" else none
  -- the throttler is destroyed after the result has been copied
  let last ← run v fuel fuel s
  pure ⟨found, printed, last⟩

/-! ## Single searches -/

namespace Coro

def val : Coro → Int
  | start _ _ val => val
  | awaiting _ _ _ _ val => val

/-- How much a search still looks at, and one more before its start. -/
def rest : Coro → Nat
  | start first last _ => last - first + 1
  | awaiting _ len _ _ _ => len

variable {v}

/-- A search that is suspended where it may go on. -/
def Sound (v : List Int) : Coro → Prop
  | start first last _ => first = 0 ∧ last = v.length
  | awaiting first len half middle val => 0 < len ∧ half = len / 2 ∧
      middle = (Window.mk first len).middle ∧ (Window.mk first len).Covers v val

theorem Sound.rest_le {c : Coro} (h : c.Sound v) : c.rest ≤ v.length + 1 := by
  cases c with
  | start first last val =>
    obtain ⟨rfl, rfl⟩ := h
    exact Nat.le_refl _
  | awaiting first len half middle val =>
    obtain ⟨-, -, -, hcovers⟩ := h
    have hin : first + len ≤ v.length := hcovers.inside
    show len ≤ v.length + 1
    omega

/-- A search that was to look at less than `bound` goes on, or has the right answer. -/
def Goes (v : List Int) (val : Int) (bound : Nat) : Next → Prop
  | .suspend c => c.Sound v ∧ c.val = val ∧ c.rest < bound
  | .onFound _ => val ∈ v
  | .onNotFound => val ∉ v

theorem loop_goes {val : Int} {w : Window} {bound : Nat} (h : w.Covers v val)
    (hlt : w.len < bound) : ∃ n, loop v val w.first w.len = .ok n ∧ Goes v val bound n := by
  rcases Nat.eq_zero_or_pos w.len with hlen | hlen
  · rw [loop, if_neg (by omega)]
    exact ⟨_, rfl, h.notMem hlen⟩
  · obtain ⟨x, hx⟩ := h.exists_middle hlen
    rw [loop, if_pos hlen]
    exact ⟨_, bind_of_ok (readAt_eq_ok.mpr hx) _, ⟨hlen, rfl, rfl, h⟩, rfl, hlt⟩

/-- **A search that goes on** has less to look at, or calls back what is right. -/
theorem advance_goes (hs : v.Pairwise (· ≤ ·)) {c : Coro} (h : c.Sound v) :
    ∃ n, c.advance v = .ok n ∧ Goes v c.val c.rest n := by
  cases c with
  | start first last val =>
    obtain ⟨rfl, rfl⟩ := h
    exact loop_goes (Window.covers_whole v val) (Nat.lt_succ_self _)
  | awaiting first len half middle val =>
    obtain ⟨hlen, rfl, rfl, hcovers⟩ := h
    obtain ⟨x, hx⟩ := hcovers.exists_middle hlen
    rw [advance, bind_of_ok (readAt_eq_ok.mpr hx)]
    by_cases heq : x = val
    · rw [if_pos heq]
      exact ⟨_, rfl, heq ▸ List.mem_of_getElem? hx⟩
    · obtain ⟨n, hloop, hgoes⟩ := loop_goes (hcovers.narrow hs hlen hx heq)
        (Window.narrow_len_lt hlen x val)
      refine ⟨n, ?_, hgoes⟩
      rw [if_neg heq, ← hloop]
      exact congrArg (fun b => loop v val b.1 b.2) (Window.narrow_pair ⟨first, len⟩ x val)

end Coro

/-! ## Many searches -/

/-- The searches of the lookups in `live` are suspended, all others have called back. -/
structure Running (v lookups : List Int) (live : List Nat) (s : Multi) : Prop where
  suspended : ∀ h ∈ live, ∃ c, s.frames[h]? = some (some c)
  sound : ∀ (h : Nat) c, s.frames[h]? = some (some c) → c.Sound v ∧ lookups[h]? = some c.val
  once : (s.calls.map Prod.fst ++ live).Perm (List.range s.frames.length)
  answers : ∀ p ∈ s.calls, ∃ key, lookups[p.1]? = some key ∧ p.2 = decide (key ∈ v)
  found : s.foundCount = s.calls.countP fun p => p.2
  notFound : s.notFoundCount = s.calls.countP fun p => !p.2

def restOf (frame : Option Coro) : Nat := (frame.map Coro.rest).getD 0

/-- How much all searches still look at. -/
def workLeft (s : Multi) : Nat := total restOf Option.isSome s.frames

variable {v} {lookups : List Int} {live : List Nat} {s : Multi} {h : Nat}

theorem Running.perm (hr : Running v lookups live s) {live' : List Nat} (hp : live'.Perm live) :
    Running v lookups live' s where
  suspended := fun h hh => hr.suspended h (hp.mem_iff.mp hh)
  sound := hr.sound
  once := (List.Perm.append_left _ hp).trans hr.once
  answers := hr.answers
  found := hr.found
  notFound := hr.notFound

/-- Only the scheduler and the limit differ. -/
theorem Running.of_eq (hr : Running v lookups live s) (scheduler : SchedulerQueue) (limit : Nat) :
    Running v lookups live { s with scheduler, limit } :=
  ⟨hr.suspended, hr.sound, hr.once, hr.answers, hr.found, hr.notFound⟩

theorem Running.nodup (hr : Running v lookups live s) : live.Nodup :=
  (List.nodup_append.mp (hr.once.nodup_iff.mpr List.nodup_range)).2.1

theorem Running.length_le (hr : Running v lookups live s) : live.length ≤ s.frames.length := by
  have hlen := hr.once.length_eq
  rw [List.length_append, List.length_range] at hlen
  omega

theorem Running.workLeft_le (hr : Running v lookups live s) :
    workLeft s ≤ s.frames.length * (v.length + 1) := by
  apply total_le
  intro frame hframe hsome
  obtain ⟨c, rfl⟩ := Option.isSome_iff_exists.mp hsome
  obtain ⟨h, hh⟩ := List.mem_iff_getElem?.mp hframe
  exact (hr.sound h c hh).1.rest_le

/-- A search goes on and is suspended again. -/
theorem Running.suspend (hr : Running v lookups live s) {c c' : Coro}
    (hh : s.frames[h]? = some (some c)) (hs : c'.Sound v) (hval : c'.val = c.val)
    (scheduler : SchedulerQueue) :
    Running v lookups live { s with frames := s.frames.set h (some c'), scheduler } := by
  have hlt := (List.getElem?_eq_some_iff.mp hh).1
  refine ⟨fun k hk => ?_, fun k d hk => ?_, ?_, hr.answers, hr.found, hr.notFound⟩
  · rcases eq_or_ne h k with rfl | hne
    · exact ⟨c', List.getElem?_set_self hlt⟩
    · obtain ⟨d, hd⟩ := hr.suspended k hk
      exact ⟨d, (List.getElem?_set_ne hne).trans hd⟩
  · rcases eq_or_ne h k with rfl | hne
    · have hd : some (some c') = some (some d) := (List.getElem?_set_self hlt).symm.trans hk
      cases hd
      exact ⟨hs, hval ▸ (hr.sound h c hh).2⟩
    · exact hr.sound k d ((List.getElem?_set_ne hne).symm.trans hk)
  · show (s.calls.map Prod.fst ++ live).Perm (List.range (s.frames.set h (some c')).length)
    rw [List.length_set]
    exact hr.once

/-- A search calls back. -/
theorem Running.finish (hr : Running v lookups (h :: live) s) {c : Coro}
    (hh : s.frames[h]? = some (some c)) :
    ∃ t, finish s h (decide (c.val ∈ v)) = .ok t ∧ Running v lookups live t ∧
      t.scheduler = s.scheduler ∧ t.limit = s.limit + 1 ∧ t.frames.length = s.frames.length := by
  have hlt := (List.getElem?_eq_some_iff.mp hh).1
  have hnotMem : h ∉ live := (List.nodup_cons.mp hr.nodup).1
  refine ⟨_, bind_of_ok (writeAt_of_lt none hlt) _, ⟨fun k hk => ?_, fun k d hk => ?_, ?_,
    fun p hp => ?_, ?_, ?_⟩, rfl, rfl, List.length_set⟩
  · obtain ⟨d, hd⟩ := hr.suspended k (List.mem_cons_of_mem h hk)
    have hne : h ≠ k := fun heq => hnotMem (heq ▸ hk)
    exact ⟨d, (List.getElem?_set_ne hne).trans hd⟩
  · rcases eq_or_ne h k with rfl | hne
    · have hd : some none = some (some d) := (List.getElem?_set_self hlt).symm.trans hk
      cases hd
    · exact hr.sound k d ((List.getElem?_set_ne hne).symm.trans hk)
  · have hperm := hr.once
    simp only [List.map_append, List.map_cons, List.map_nil, List.append_assoc,
      List.singleton_append, List.length_set]
    exact hperm
  · rcases List.mem_append.mp hp with hp | hp
    · exact hr.answers p hp
    · cases List.mem_singleton.mp hp
      exact ⟨c.val, (hr.sound h c hh).2, rfl⟩
  · show (if _ then _ else _) = (s.calls ++ [_]).countP _
    rw [List.countP_append, List.countP_singleton, ← hr.found]
    split <;> rfl
  · show (if _ then _ else _) = (s.calls ++ [_]).countP _
    rw [List.countP_append, List.countP_singleton, ← hr.notFound]
    cases decide (c.val ∈ v) <;> rfl

/-! ## The ring -/

open SchedulerQueue

variable {q : List Nat} {ring : SchedulerQueue}

theorem pushBack_eq {d : Nat} (hg : ring.Gap N d) (h : Option Nat) :
    pushBack ring h = .ok (ring.push N h) := by
  have hlt := hg.head_lt
  rw [← hg.size_eq] at hlt
  exact bind_of_ok (writeAt_of_lt h hlt) _

theorem popFront_eq (hq : ring.Holds N ((h :: q).map some)) :
    popFront ring = .ok (some h, ring.pop N) :=
  bind_of_ok (readAt_eq_ok.mpr hq.front) _

/-- The search that is suspended goes to the end of the queue, and the first one goes on. -/
theorem awaitSuspend_eq (hq : ring.Holds N (q.map some)) (hfits : q.length < N) (h : Nat) :
    ∃ k rest ring', awaitSuspend ring (some h) = .ok (some k, ring') ∧
      ring'.Holds N (rest.map some) ∧ (k :: rest).Perm (h :: q) := by
  obtain ⟨k, rest, hcons⟩ := List.exists_cons_of_ne_nil (List.append_ne_nil_of_right_ne_nil q
    (List.cons_ne_nil h []))
  have hpush := hq.push (by rw [List.length_map]; exact hfits) (some h)
  have hmap : q.map some ++ [some h] = (k :: rest).map some := by
    rw [← hcons, List.map_append]
    rfl
  rw [hmap] at hpush
  refine ⟨k, rest, _, ?_, hpush.pop, hcons ▸ List.perm_append_singleton h q⟩
  rw [awaitSuspend, bind_of_ok (pushBack_eq hq.toGap (some h)), popFront_eq hpush]

/-- What `resume` comes to once the search has gone on. -/
theorem resume_eq {fuel : Nat} {c : Coro} {n : Next} (hh : s.frames[h]? = some (some c))
    (hadv : c.advance v = .ok n) : resume v (fuel + 1) (some h) s =
      match n with
      | .suspend c' => do
        let (next, scheduler) ← s.scheduler.awaitSuspend (some h)
        resume v fuel next { s with frames := s.frames.set h (some c'), scheduler }
      | .onFound _ => finish s h true
      | .onNotFound => finish s h false := by
  have hlt := (List.getElem?_eq_some_iff.mp hh).1
  rw [resume, bind_of_ok (readSet_eq_ok.mpr rfl), bind_of_ok (readAt_eq_ok.mpr hh),
    bind_of_ok (readSet_eq_ok.mpr rfl), bind_of_ok hadv]
  cases n with
  | suspend c' => exact bind_of_ok (writeAt_of_lt (some c') hlt) _
  | onFound middle => rfl
  | onNotFound => rfl

/-- **Whenever something is resumed, one search ends**, and what was in the ring is there
or has taken its turn.  The searches in `apart` are not in the ring yet. -/
theorem resume_ready (hs : v.Pairwise (· ≤ ·)) {fuel : Nat} {apart : List Nat}
    (hr : Running v lookups (h :: (q ++ apart)) s) (hq : s.scheduler.Holds N (q.map some))
    (hfits : q.length < N) (hfuel : workLeft s < fuel) :
    ∃ t q', resume v fuel (some h) s = .ok t ∧ Running v lookups (q' ++ apart) t ∧
      t.scheduler.Holds N (q'.map some) ∧ q'.length = q.length ∧ t.limit = s.limit + 1 ∧
      t.frames.length = s.frames.length := by
  induction fuel generalizing h q s with
  | zero => omega
  | succ fuel ih =>
    obtain ⟨c, hh⟩ := hr.suspended h List.mem_cons_self
    obtain ⟨n, hadv, hgoes⟩ := c.advance_goes hs (hr.sound h c hh).1
    rw [resume_eq hh hadv]
    cases n with
    | suspend c' =>
      obtain ⟨hsound, hval, hless⟩ := hgoes
      obtain ⟨k, rest, ring, hawait, hring, hperm⟩ := awaitSuspend_eq hq hfits h
      have hlen : rest.length = q.length := Nat.succ.inj hperm.length_eq
      have hperm' : (k :: (rest ++ apart)).Perm (h :: (q ++ apart)) :=
        List.Perm.append_right apart hperm
      have hwork := total_set (f := restOf) (p := Option.isSome) (b := some c') hh
      have hcrest : c'.rest < c.rest := hless
      have hleft : total restOf Option.isSome (s.frames.set h (some c')) < fuel := by
        simp only [Option.isSome_some, if_true, restOf, Option.map_some, Option.getD_some] at hwork
        unfold workLeft at hfuel
        omega
      obtain ⟨t, q', hrun, ht, hq', hlen', hlimit, hframes⟩ :=
        ih ((hr.suspend hh hsound hval ring).perm hperm') hring (by rw [hlen]; exact hfits) hleft
      refine ⟨t, q', ?_, ht, hq', hlen'.trans hlen, hlimit, hframes.trans List.length_set⟩
      exact (bind_of_ok hawait _).trans hrun
    | onFound middle =>
      obtain ⟨t, hrun, ht, hring, hlimit, hframes⟩ := hr.finish hh
      rw [decide_eq_true (show c.val ∈ v from hgoes)] at hrun
      exact ⟨t, q, hrun, ht, hring ▸ hq, rfl, hlimit, hframes⟩
    | onNotFound =>
      obtain ⟨t, hrun, ht, hring, hlimit, hframes⟩ := hr.finish hh
      rw [decide_eq_false (show c.val ∉ v from hgoes)] at hrun
      exact ⟨t, q, hrun, ht, hring ▸ hq, rfl, hlimit, hframes⟩

/-! ## Calls that complete -/

/-- Between the steps of the throttler, whatever is suspended is in the ring. -/
structure Ready (v lookups : List Int) (streams : Nat) (q : List Nat) (s : Multi) : Prop
    extends Running v lookups q s where
  ring : s.scheduler.Holds N (q.map some)
  limit_eq : s.limit + q.length = streams

variable {streams fuel : Nat} {key : Int}

theorem Running.make (hr : Running v lookups live s) (hkey : lookups[s.frames.length]? = some key) :
    Running v lookups (live ++ [s.frames.length])
      { s with frames := s.frames ++ [some (.start 0 v.length key)] } := by
  refine ⟨fun h hh => ?_, fun h c hh => ?_, ?_, hr.answers, hr.found, hr.notFound⟩
  · rcases List.mem_append.mp hh with hh | hh
    · obtain ⟨c, hc⟩ := hr.suspended h hh
      have hlt := (List.getElem?_eq_some_iff.mp hc).1
      exact ⟨c, (List.getElem?_append_left hlt).trans hc⟩
    · cases List.mem_singleton.mp hh
      exact ⟨_, List.getElem?_concat_length⟩
  · rcases Nat.lt_trichotomy h s.frames.length with hlt | rfl | hgt
    · exact hr.sound h c ((List.getElem?_append_left hlt).symm.trans hh)
    · have hc : some (some _) = some (some c) := List.getElem?_concat_length.symm.trans hh
      cases hc
      exact ⟨⟨rfl, rfl⟩, hkey⟩
    · have hlt := (List.getElem?_eq_some_iff.mp hh).1
      rw [List.length_append, List.length_singleton] at hlt
      omega
  · show (s.calls.map Prod.fst ++ (live ++ [_])).Perm (List.range (s.frames ++ [_]).length)
    rw [List.length_append, List.length_singleton, List.range_succ, ← List.append_assoc]
    exact List.Perm.append_right _ hr.once

/-- A search ends if there is no room for another one. -/
theorem makeRoom_ready (hs : v.Pairwise (· ≤ ·)) (hstreams : 1 ≤ streams) {apart : List Nat}
    (hr : Running v lookups (q ++ apart) s) (hq : s.scheduler.Holds N (q.map some))
    (hlimit : s.limit + q.length = streams) (hfits : q.length < N) (hfuel : workLeft s < fuel) :
    ∃ t q', makeRoom v fuel s = .ok t ∧ Running v lookups (q' ++ apart) t ∧
      t.scheduler.Holds N (q'.map some) ∧ q'.length ≤ q.length ∧ 1 ≤ t.limit ∧
      t.limit + q'.length = streams ∧ t.frames.length = s.frames.length := by
  unfold makeRoom
  by_cases hzero : s.limit = 0
  · rw [if_pos hzero]
    cases q with
    | nil =>
      rw [hzero, List.length_nil] at hlimit
      omega
    | cons h q =>
      rw [List.length_cons] at hlimit hfits
      rw [bind_of_ok (popFront_eq hq)]
      obtain ⟨t, q', hrun, ht, hq', hlen, hlimit', hframes⟩ := resume_ready hs
        (hr.of_eq (s.scheduler.pop N) s.limit) hq.pop (by omega) hfuel
      have hmade : t.limit = s.limit + 1 := hlimit'
      refine ⟨t, q', hrun, ht, hq', ?_, ?_, ?_, hframes⟩
      · rw [hlen]
        exact Nat.le_succ _
      · omega
      · omega
  · rw [if_neg hzero]
    exact ⟨s, q, rfl, hr, hq, Nat.le_refl _, by omega, hlimit, rfl⟩

theorem enqueue_ready {h : Nat} (hr : Running v lookups (q ++ [h]) s)
    (hq : s.scheduler.Holds N (q.map some)) (hfits : q.length < N) (hpos : 1 ≤ s.limit)
    (hlimit : s.limit + q.length = streams) :
    ∃ t, enqueue s h = .ok t ∧ Ready v lookups streams (q ++ [h]) t ∧
      t.frames.length = s.frames.length := by
  refine ⟨_, bind_of_ok (pushBack_eq hq.toGap _) _, ⟨hr.of_eq _ _, ?_, ?_⟩, rfl⟩
  · rw [List.map_append]
    exact hq.push (by rw [List.length_map]; exact hfits) _
  · show s.limit - 1 + (q ++ [h]).length = streams
    rw [List.length_append, List.length_singleton]
    omega

theorem spawn_ready (hs : v.Pairwise (· ≤ ·)) (hstreams : 1 ≤ streams)
    (hfits : streams < N ∨ lookups.length < N) (hfuel : lookups.length * (v.length + 1) < fuel)
    (hr : Ready v lookups streams q s) (hkey : lookups[s.frames.length]? = some key) :
    ∃ t q', spawn v fuel s key = .ok t ∧ Ready v lookups streams q' t ∧
      t.frames.length = s.frames.length + 1 := by
  have hlt := (List.getElem?_eq_some_iff.mp hkey).1
  have hlimit := hr.limit_eq
  have hlen := hr.toRunning.length_le
  have hmade := hr.toRunning.make hkey
  have hframes : (s.frames ++ [some (Coro.start 0 v.length key)]).length = s.frames.length + 1 := by
    rw [List.length_append, List.length_singleton]
  have hle : (s.frames ++ [some (Coro.start 0 v.length key)]).length * (v.length + 1) ≤
      lookups.length * (v.length + 1) := Nat.mul_le_mul_right _ (hframes ▸ hlt)
  obtain ⟨t, q', hroom, ht, hq', hlen', hpos, hlimit', hframes'⟩ :=
    makeRoom_ready hs hstreams hmade hr.ring hlimit (by omega)
      (Nat.lt_of_le_of_lt hmade.workLeft_le (Nat.lt_of_le_of_lt hle hfuel))
  obtain ⟨u, hpush, hu, hframes''⟩ := enqueue_ready ht hq' (by omega) hpos hlimit'
  exact ⟨u, _, (bind_of_ok hroom _).trans hpush, hu, hframes''.trans (hframes'.trans hframes)⟩

theorem spawns_ready (hs : v.Pairwise (· ≤ ·)) (hstreams : 1 ≤ streams)
    (hfits : streams < N ∨ lookups.length < N) (hfuel : lookups.length * (v.length + 1) < fuel)
    (rest : List Int) (hr : Ready v lookups streams q s)
    (hrest : lookups.drop s.frames.length = rest) :
    ∃ t q', rest.foldlM (spawn v fuel) s = .ok t ∧ Ready v lookups streams q' t ∧
      t.frames.length = s.frames.length + rest.length := by
  induction rest generalizing q s with
  | nil => exact ⟨s, q, rfl, hr, rfl⟩
  | cons key rest ih =>
    have hkey : lookups[s.frames.length]? = some key := by
      have hget : (lookups.drop s.frames.length)[0]? = lookups[s.frames.length + 0]? :=
        List.getElem?_drop
      rw [hrest] at hget
      exact hget.symm
    obtain ⟨t, q', hspawn, ht, hframes⟩ := spawn_ready hs hstreams hfits hfuel hr hkey
    have hrest' : lookups.drop t.frames.length = rest := by
      rw [hframes, ← List.drop_drop, hrest]
      rfl
    obtain ⟨u, q'', hspawns, hu, hframes'⟩ := ih ht hrest'
    refine ⟨u, q'', foldlM_cons_ok.mpr ⟨t, hspawn, hspawns⟩, hu, ?_⟩
    rw [hframes', hframes, List.length_cons]
    omega

/-- The ring is empty where it looks like it, and all searches have ended then. -/
theorem run_ready (hs : v.Pairwise (· ≤ ·)) (hr : Ready v lookups streams q s)
    (hfits : q.length < N) (hfuel : s.frames.length * (v.length + 1) < fuel) {n : Nat}
    (hn : q.length < n) :
    ∃ t, run v fuel n s = .ok t ∧ Ready v lookups streams [] t ∧
      t.frames.length = s.frames.length := by
  induction n generalizing q s with
  | zero => omega
  | succ n ih =>
    have hmeet := hr.ring.toGap.meet_iff
    rw [List.length_map, Nat.mod_eq_of_lt hfits] at hmeet
    unfold run tryPopFront
    cases q with
    | nil =>
      rw [if_neg (not_not_intro (hmeet.mpr rfl))]
      exact ⟨s, rfl, hr, rfl⟩
    | cons h q =>
      rw [List.length_cons] at hfits hn
      rw [if_pos fun heq => Nat.succ_ne_zero _ (hmeet.mp heq), bind_of_ok (popFront_eq hr.ring)]
      have hr' := hr.toRunning.of_eq (s.scheduler.pop N) s.limit
      rw [← List.append_nil q] at hr'
      obtain ⟨t, q', hrun, ht, hq', hlen, hlimit, hframes⟩ := resume_ready hs hr' hr.ring.pop
        (by omega) (Nat.lt_of_le_of_lt hr.toRunning.workLeft_le hfuel)
      rw [List.append_nil] at ht
      have hlimit' : t.limit = s.limit + 1 := hlimit
      have hall := hr.limit_eq
      rw [List.length_cons] at hall
      obtain ⟨u, hrun', hu, hframes'⟩ := ih ⟨ht, hq', by omega⟩ (by omega)
        (by rw [hframes]; exact hfuel) (by omega)
      exact ⟨u, (bind_of_ok hrun _).trans hrun', hu, hframes'.trans hframes⟩

/-- Exactly one callback has run for each lookup, and as many found something as the naive
search does. -/
structure Completes (v lookups : List Int) (r : Report) : Prop where
  once : ∀ h < lookups.length, (r.last.calls.map Prod.fst).count h = 1
  counts : r.last.foundCount + r.last.notFoundCount = lookups.length
  result : r.result = lookups.countP fun key => naiveBinarySearch v key = .ok true

/-- A call returns, and has completed its lookups. -/
def Meets (q : SchedulerQueue) (v lookups : List Int) (streams : Nat) : Prop :=
  ∃ enough, ∀ fuel, enough < fuel →
    ∃ r, coroMultiLookup fuel q v lookups streams = .ok r ∧ Completes v lookups r

theorem Running.found_eq (hr : Running v lookups [] s) (hlen : s.frames.length = lookups.length) :
    s.foundCount = lookups.countP fun key => key ∈ v := by
  have honce := hr.once
  rw [List.append_nil, hlen] at honce
  rw [hr.found, ← countP_range (fun key => decide (key ∈ v)) lookups, ← honce.countP_eq,
    List.countP_map]
  apply List.countP_congr
  intro p hp
  obtain ⟨key, hkey, hans⟩ := hr.answers p hp
  simp only [Function.comp_apply, hkey, Option.any_some, hans]

theorem Running.completes (hr : Running v lookups [] s) (hlen : s.frames.length = lookups.length) :
    (∀ h < lookups.length, (s.calls.map Prod.fst).count h = 1) ∧
      s.foundCount + s.notFoundCount = lookups.length := by
  have honce := hr.once
  rw [List.append_nil, hlen] at honce
  constructor
  · intro h hh
    rw [honce.count_eq]
    exact List.count_eq_one_of_mem List.nodup_range (List.mem_range.mpr hh)
  · have hcalls := honce.length_eq
    rw [List.length_map, List.length_range] at hcalls
    rw [hr.found, hr.notFound, ← hcalls]
    rw [List.length_eq_countP_add_countP (fun p => p.2)]
    simp only [Bool.not_eq_true, Bool.decide_eq_false]

/-- Before the first search is made. -/
theorem start_ready (hidle : ring.Idle) (v lookups : List Int) (streams : Nat) :
    Ready v lookups streams [] ⟨ring, [], streams, 0, 0, []⟩ where
  suspended := fun h hh => absurd hh List.not_mem_nil
  sound := fun h c hc => by cases hc
  once := List.Perm.refl _
  answers := fun p hp => absurd hp List.not_mem_nil
  found := rfl
  notFound := rfl
  ring := RingBuffer.Gap.holds_nil hidle
  limit_eq := rfl

theorem meets_of (hs : v.Pairwise (· ≤ ·)) (hstreams : 1 ≤ streams)
    (hfits : streams < N ∨ lookups.length < N) (hidle : ring.Idle) :
    Meets ring v lookups streams := by
  refine ⟨lookups.length * (v.length + 1), fun fuel hfuel => ?_⟩
  obtain ⟨s, q, hspawns, hr, hframes⟩ :=
    spawns_ready hs hstreams hfits hfuel lookups (start_ready hidle v lookups streams) rfl
  have hlen : s.frames.length = lookups.length := hframes.trans (Nat.zero_add _)
  have hlive := hr.toRunning.length_le
  have hlimit := hr.limit_eq
  have hle : lookups.length ≤ lookups.length * (v.length + 1) :=
    Nat.le_mul_of_pos_right _ (Nat.succ_pos _)
  have hpos : 0 < fuel := by omega
  obtain ⟨t, hrun, ht, hframes'⟩ :=
    run_ready hs hr (by omega) (hlen ▸ hfuel) (n := fuel) (by omega)
  obtain ⟨u, hrun', hu, hframes''⟩ :=
    run_ready hs ht (by decide) (hframes' ▸ hlen ▸ hfuel) (n := fuel) hpos
  have htlen := hframes'.trans hlen
  have hulen := hframes''.trans htlen
  obtain ⟨honce, hcounts⟩ := hu.toRunning.completes hulen
  have hcall : ∃ printed, coroMultiLookup fuel ring v lookups streams =
      .ok ⟨t.foundCount, printed, u⟩ := by
    rw [coroMultiLookup, bind_of_ok hspawns, bind_of_ok hrun]
    exact ⟨_, bind_of_ok hrun' _⟩
  obtain ⟨printed, hcall⟩ := hcall
  refine ⟨_, hcall, honce, hcounts, ?_⟩
  rw [countP_naive hs]
  exact ht.toRunning.found_eq htlen

/-! ## Calls that do not -/

/-- How many searches have called back. -/
def ended (s : Multi) : Nat := s.foundCount + s.notFoundCount

theorem finish_ended {t : Multi} {found : Bool} (hrun : finish s h found = .ok t) :
    t.scheduler = s.scheduler ∧ ended t = ended s + 1 ∧ t.limit = s.limit + 1 := by
  obtain ⟨frames, -, hrun⟩ := bind_eq_ok.mp hrun
  cases hrun
  refine ⟨rfl, ?_, rfl⟩
  unfold ended
  cases found with
  | false => exact (Nat.add_assoc _ _ _).symm
  | true => exact Nat.add_right_comm _ _ _

variable {ring ring' : SchedulerQueue} {d : Nat} {handle : Option Nat}

theorem pushBack_gap (hg : ring.Gap N d) (hrun : pushBack ring handle = .ok ring') :
    ring'.Gap N (d + 1) := by
  rw [pushBack_eq hg] at hrun
  cases hrun
  exact hg.push handle

theorem popFront_gap (hg : ring.Gap N (d + 1)) (hrun : popFront ring = .ok (handle, ring')) :
    ring'.Gap N d := by
  obtain ⟨a, -, hrun⟩ := bind_eq_ok.mp hrun
  cases hrun
  exact hg.pop

theorem awaitSuspend_gap {next : Option Nat} (hg : ring.Gap N d)
    (hrun : awaitSuspend ring handle = .ok (next, ring')) : ring'.Gap N d := by
  obtain ⟨ring'', hpush, hpop⟩ := bind_eq_ok.mp hrun
  exact popFront_gap (pushBack_gap hg hpush) hpop

/-- Whatever is resumed, if this ends then one search has ended, and as much has been put
into the ring as has been taken from it. -/
theorem resume_gap {t : Multi} (hg : s.scheduler.Gap N d) (hrun : resume v fuel handle s = .ok t) :
    t.scheduler.Gap N d ∧ ended t = ended s + 1 ∧ t.limit = s.limit + 1 := by
  induction fuel generalizing handle s with
  | zero => cases hrun
  | succ fuel ih =>
    rw [resume] at hrun
    obtain ⟨h, -, hrun⟩ := bind_eq_ok.mp hrun
    obtain ⟨frame, -, hrun⟩ := bind_eq_ok.mp hrun
    obtain ⟨c, -, hrun⟩ := bind_eq_ok.mp hrun
    obtain ⟨n, -, hrun⟩ := bind_eq_ok.mp hrun
    cases n with
    | suspend c' =>
      obtain ⟨frames, -, hrun⟩ := bind_eq_ok.mp hrun
      obtain ⟨⟨next, ring⟩, hawait, hrun⟩ := bind_eq_ok.mp hrun
      have hrest := ih (awaitSuspend_gap hg hawait) hrun
      exact hrest
    | onFound middle =>
      obtain ⟨hring, hended⟩ := finish_ended hrun
      exact ⟨hring ▸ hg, hended⟩
    | onNotFound =>
      obtain ⟨hring, hended⟩ := finish_ended hrun
      exact ⟨hring ▸ hg, hended⟩

/-- What is counted while searches are made: nothing ends before the limit is reached. -/
structure Pending (streams made d : Nat) (s : Multi) : Prop where
  gap : s.scheduler.Gap N d
  ended_eq : ended s + d = made
  limit_eq : s.limit + d = streams
  room : ended s = 0 ∨ s.limit = 0

/-- There is room after a search has ended, and there was room if none has. -/
theorem makeRoom_pending {made : Nat} {t : Multi} (hstreams : 1 ≤ streams)
    (hp : Pending streams made d s) (hrun : makeRoom v fuel s = .ok t) :
    ∃ e, t.scheduler.Gap N e ∧ ended t + e = made ∧ t.limit + e = streams ∧ 1 ≤ t.limit ∧
      (ended t = 0 ∨ t.limit = 1) := by
  have hended := hp.ended_eq
  have hlimit := hp.limit_eq
  unfold makeRoom at hrun
  split at hrun
  · rename_i hzero
    obtain ⟨⟨front, ring⟩, hpop, hrun⟩ := bind_eq_ok.mp hrun
    obtain ⟨e, rfl⟩ : ∃ e, d = e + 1 := ⟨d - 1, by omega⟩
    obtain ⟨hgap, hended', hlimit'⟩ := resume_gap (popFront_gap hp.gap hpop) hrun
    have hended'' : ended t = ended s + 1 := hended'
    have hlimit'' : t.limit = s.limit + 1 := hlimit'
    exact ⟨e, hgap, by omega, by omega, by omega, .inr (by omega)⟩
  · rename_i hpos
    cases hrun
    exact ⟨d, hp.gap, hended, hlimit, by omega, .inl (hp.room.resolve_right hpos)⟩

theorem spawn_pending {made : Nat} {t : Multi} (hstreams : 1 ≤ streams)
    (hp : Pending streams made d s) (hrun : spawn v fuel s key = .ok t) :
    ∃ d', Pending streams (made + 1) d' t := by
  obtain ⟨u, hroom, henqueue⟩ := bind_eq_ok.mp hrun
  obtain ⟨ring, hpush, ht⟩ := bind_eq_ok.mp henqueue
  cases ht
  have hmade : Pending streams made d
      { s with frames := s.frames ++ [some (.start 0 v.length key)] } :=
    ⟨hp.gap, hp.ended_eq, hp.limit_eq, hp.room⟩
  obtain ⟨e, hgap, hended, hlimit, hpos, hone⟩ := makeRoom_pending hstreams hmade hroom
  refine ⟨e + 1, pushBack_gap hgap hpush, ?_, ?_, hone.imp_right fun hone => ?_⟩
  · show ended u + (e + 1) = made + 1
    omega
  · show u.limit - 1 + (e + 1) = streams
    omega
  · show u.limit - 1 = 0
    omega

theorem spawns_pending {rest : List Int} {made : Nat} {t : Multi} (hstreams : 1 ≤ streams)
    (hp : Pending streams made d s) (hrun : rest.foldlM (spawn v fuel) s = .ok t) :
    ∃ d', Pending streams (made + rest.length) d' t := by
  induction rest generalizing made d s with
  | nil => exact ⟨d, foldlM_nil_ok.mp hrun ▸ hp⟩
  | cons key rest ih =>
    obtain ⟨u, hspawn, hrest⟩ := foldlM_cons_ok.mp hrun
    obtain ⟨d', hp'⟩ := spawn_pending hstreams hp hspawn
    obtain ⟨e, he⟩ := ih hp' hrest
    rw [Nat.add_assoc, Nat.add_comm 1] at he
    exact ⟨e, he⟩

/-- **A ring that has gone round** looks empty when it is full: as many searches as it
has slots are never resumed. -/
theorem run_gap {n all : Nat} {t : Multi} (hg : s.scheduler.Gap N d) (hd : N ≤ d)
    (hall : ended s + d ≤ all) (hrun : run v fuel n s = .ok t) :
    ∃ e, t.scheduler.Gap N e ∧ N ≤ e ∧ ended t + e ≤ all := by
  induction n generalizing d s with
  | zero => cases hrun
  | succ n ih =>
    rw [run] at hrun
    obtain ⟨⟨handle, ring⟩, hpop, hrun⟩ := bind_eq_ok.mp hrun
    unfold tryPopFront at hpop
    split at hpop
    · rename_i hne
      have hlt : N < d := by
        rcases Nat.lt_or_eq_of_le hd with hlt | rfl
        · exact hlt
        · exact absurd (hg.meet_iff.mpr (Nat.mod_self N)) hne
      obtain ⟨e, rfl⟩ : ∃ e, d = e + 1 := ⟨d - 1, by omega⟩
      have hgap := popFront_gap hg hpop
      cases handle with
      | none =>
        cases hrun
        exact ⟨e, hgap, by omega, Nat.le_trans (Nat.add_le_add_left (Nat.le_succ e) _) hall⟩
      | some h =>
        obtain ⟨u, hres, hrun⟩ := bind_eq_ok.mp hrun
        obtain ⟨hgap', hended, -⟩ := resume_gap hgap hres
        have hended' : ended u = ended s + 1 := hended
        exact ih hgap' (by omega) (by omega) hrun
    · cases hpop
      cases hrun
      exact ⟨d, hg, hd, hall⟩

theorem not_meets_of (hidle : ring.Idle) (hstreams : N ≤ streams) (hlookups : N ≤ lookups.length) :
    ¬ Meets ring v lookups streams := by
  rintro ⟨enough, hmeets⟩
  obtain ⟨r, hcall, hdone⟩ := hmeets (enough + 1) (Nat.lt_succ_self enough)
  obtain ⟨s, hspawns, hcall⟩ := bind_eq_ok.mp hcall
  obtain ⟨t, hrun, hcall⟩ := bind_eq_ok.mp hcall
  obtain ⟨u, hrun', hcall⟩ := bind_eq_ok.mp hcall
  cases hcall
  have hN : 0 < N := by decide
  have hfirst : Pending streams 0 0 ⟨ring, [], streams, 0, 0, []⟩ := ⟨hidle, rfl, rfl, .inl rfl⟩
  obtain ⟨d, hp⟩ := spawns_pending (by omega) hfirst hspawns
  have hended := hp.ended_eq
  have hlimit := hp.limit_eq
  have hd : N ≤ d := by
    rcases hp.room with hroom | hroom <;> omega
  obtain ⟨e, hgap, he, hall⟩ := run_gap hp.gap hd (Nat.le_of_eq hended) hrun
  obtain ⟨e', -, he', hall'⟩ := run_gap hgap he hall hrun'
  have hcounts : ended u = lookups.length := hdone.counts
  omega

/-- **A call completes its lookups** exactly if not all slots of the ring are needed. -/
theorem coro_completes_iff (ring : SchedulerQueue) (hidle : ring.Idle) (v lookups : List Int)
    (hs : v.Pairwise (· ≤ ·)) (streams : Nat) (hstreams : 1 ≤ streams) :
    Meets ring v lookups streams ↔ streams < N ∨ lookups.length < N := by
  constructor
  · intro hmeets
    by_contra hfits
    rw [not_or, Nat.not_lt, Nat.not_lt] at hfits
    exact not_meets_of hidle hfits.1 hfits.2 hmeets
  · exact fun hfits => meets_of hs hstreams hfits hidle

theorem new_idle : SchedulerQueue.new.Idle := ⟨List.length_replicate, by decide, rfl⟩

/-- Three streams. -/
theorem coro_completes_three : Meets .new [1, 3, 3, 7] [3, 2, 7, 3, 8, 0] 3 :=
  (coro_completes_iff .new new_idle [1, 3, 3, 7] [3, 2, 7, 3, 8, 0] (by decide) 3
    (by decide)).mpr (.inl (by decide))

/-- As many streams and lookups as the ring has slots. -/
theorem coro_all_slots : ¬ Meets .new [1, 3, 3, 7] (List.replicate 256 3) 256 :=
  not_meets_of new_idle (Nat.le_refl 256) (by rw [List.length_replicate]; exact Nat.le_refl 256)

end Doradd.Prefetch
