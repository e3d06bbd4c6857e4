import Doradd.Lib.Totals
import Doradd.Prefetch.Naive

/-!
# Interleaved searches, by hand

A frame holds a search that is under way.  The frames take turns: a lookup makes them go
on until one is done, and takes its place.

* `Frame.run_going`: what one step of a search comes to;
* `untilDone_going`: one of the searches ends, and the next one starts;
* `drain_going`: all that are left end;
* `sm_counts`: as many lookups are found as the naive search finds.
-/

namespace Doradd.Prefetch

open Lib

/-! ## prefetch/coro_bin_search/sm.h -/

inductive State
  | keepGoing
  | found
  | notFound
  | empty
  deriving DecidableEq, Repr

/-- A pointer is the position of what it points to; only `middle` is ever followed. -/
structure Frame where
  first : Nat
  last : Nat
  middle : Option Nat
  len : Nat
  half : Nat
  val : Int
  state : State
  deriving DecidableEq, Repr

namespace Frame

/-- A frame of a new vector. -/
def new : Frame := ⟨0, 0, none, 0, 0, 0, .empty⟩

/-- `prefetch(*middle)`, which has to point into the vector too. -/
def prefetch (v : List Int) (middle : Nat) : Except Fault Unit := do
  let _ ← readAt v middle
  pure ()

def init (f : Frame) (v : List Int) (first last : Nat) (key : Int) : Except Fault Frame := do
  let f := { f with val := key, first := first, last := last, len := last - first }
  if f.len = 0 then
    pure { f with state := .notFound }
  else
    let half := f.len / 2
    let middle := first + half
    prefetch v middle
    pure { f with half := half, middle := some middle, state := .keepGoing }

/-- The half that is left after `x` has been read in the middle. -/
def halve (f : Frame) (middle : Nat) (x : Int) : Frame :=
  if x < f.val then { f with first := middle + 1, len := f.len - f.half - 1 }
  else { f with len := f.half }

def run (f : Frame) (v : List Int) : Except Fault (Frame × Bool) := do
  let middle ← readSet f.middle
  let x ← readAt v middle
  let f := f.halve middle x
  if x = f.val then
    pure ({ f with state := .found }, true)
  else if 0 < f.len then
    let half := f.len / 2
    let middle := f.first + half
    prefetch v middle
    pure ({ f with half := half, middle := some middle }, false)
  else
    pure ({ f with state := .notFound }, true)

end Frame

/-- The variables of `SmMultiLookup`. -/
structure Sm where
  f : List Frame
  i : Nat
  result : Nat
  deriving DecidableEq, Repr

/-- `if (i == 0) i = N; else --i;` -/
def nextFrame (N i : Nat) : Nat := if i = 0 then N else i - 1

variable (v : List Int) (N : Nat) (key : Int)

/-- `run` of the frame at `j`, and what both loops do when it is done. -/
def runFrame (s : Sm) (j : Nat) : Except Fault (Sm × Bool) := do
  let fr ← readAt s.f j
  let (fr, done) ← fr.run v
  let f ← writeAt s.f j fr
  let result := if done ∧ fr.state = .found then s.result + 1 else s.result
  pure ({ s with f, result }, done)

/-- `fr->init(beg, end, key)`, and on to the next frame -/
def initFrame (s : Sm) : Except Fault Sm := do
  let fr ← readAt s.f s.i
  let fr ← fr.init v 0 v.length key
  let f ← writeAt s.f s.i fr
  pure { s with f, i := nextFrame N s.i }

/-- `for (;;)` -/
def untilDone : Nat → Sm → Except Fault Sm
  | 0, _ => .error .outOfFuel
  | fuel + 1, s => do
    let (s, done) ← runFrame v s s.i
    if done then initFrame v N key s else untilDone fuel { s with i := nextFrame N s.i }

/-- One round of the loop over the lookups. -/
def smLookup (fuel : Nat) (s : Sm) (key : Int) : Except Fault Sm := do
  let fr ← readAt s.f s.i
  if fr.state ≠ .keepGoing then initFrame v N key s else untilDone v N key fuel s

/-- What the last loop does with one frame, where the flag is `moreWork`. -/
def drainFrame (s : Sm × Bool) (j : Nat) : Except Fault (Sm × Bool) := do
  let (s, moreWork) := s
  let fr ← readAt s.f j
  if fr.state = .keepGoing then
    let (s, _) ← runFrame v s j
    pure (s, true)
  else
    pure (s, moreWork)

/-- `do { … } while (moreWork)` -/
def drain : Nat → Sm → Except Fault Sm
  | 0, _ => .error .outOfFuel
  | fuel + 1, s => do
    let (s, moreWork) ← (List.range s.f.length).foldlM (drainFrame v) (s, false)
    if moreWork then drain fuel s else pure s

/-- `SmMultiLookup`, with as many rounds of an endless loop as there is fuel. -/
def smMultiLookup (fuel : Nat) (v lookups : List Int) (streams : Nat) : Except Fault Nat := do
  let N := streams - 1
  let _ ← readAt v 0
  let s ← lookups.foldlM (smLookup v N fuel) ⟨List.replicate streams .new, N, 0⟩
  let s ← drain v fuel s
  pure s.result

/-! ## Frames -/

namespace Frame

/-- What a search still looks at. -/
def window (f : Frame) : Window := ⟨f.first, f.len⟩

/-- A search that is under way. -/
structure Going (v : List Int) (f : Frame) : Prop where
  len_pos : 0 < f.len
  half_eq : f.half = f.len / 2
  middle_eq : f.middle = some f.window.middle
  covers : f.window.Covers v f.val

variable {v} {f : Frame}

theorem prefetch_eq {w : Window} {val : Int} (h : w.Covers v val) (hlen : 0 < w.len) :
    prefetch v w.middle = .ok () := by
  obtain ⟨x, hx⟩ := h.exists_middle hlen
  rw [prefetch, bind_of_ok (readAt_eq_ok.mpr hx)]
  rfl

theorem Going.len_le (h : f.Going v) : f.len ≤ v.length :=
  Nat.le_trans (Nat.le_add_left _ _) h.covers.inside

/-- A search starts with the whole vector. -/
theorem init_going (hv : v ≠ []) (f : Frame) (key : Int) :
    ∃ g, f.init v 0 v.length key = .ok g ∧ g.state = .keepGoing ∧ g.val = key ∧ g.Going v := by
  have hlen : 0 < v.length := List.length_pos_iff.mpr hv
  have hcovers := Window.covers_whole v key
  have hpre := prefetch_eq hcovers hlen
  simp only [Window.middle, Nat.zero_add] at hpre
  refine ⟨⟨0, v.length, some (v.length / 2), v.length, v.length / 2, key, .keepGoing⟩, ?_, rfl,
    rfl, hlen, rfl, congrArg some (Nat.zero_add _).symm, hcovers⟩
  simp only [init, Nat.sub_zero, Nat.zero_add, if_neg (Nat.ne_of_gt hlen), bind_of_ok hpre]
  rfl

theorem halve_val (f : Frame) (middle : Nat) (x : Int) : (f.halve middle x).val = f.val := by
  unfold halve
  split <;> rfl

theorem halve_state (f : Frame) (middle : Nat) (x : Int) :
    (f.halve middle x).state = f.state := by
  unfold halve
  split <;> rfl

theorem Going.halve_window (h : f.Going v) (x : Int) :
    (f.halve f.window.middle x).window = f.window.narrow x f.val := by
  unfold halve Window.narrow window
  rw [h.half_eq]
  split <;> rfl

theorem Going.run_eq (h : f.Going v) {x : Int} (hx : v[f.window.middle]? = some x)
    {g : Frame} (hg : f.halve f.window.middle x = g) : f.run v =
      if x = g.val then .ok ({ g with state := .found }, true)
      else if 0 < g.len then do
        prefetch v g.window.middle
        .ok ({ g with half := g.len / 2, middle := some g.window.middle }, false)
      else .ok ({ g with state := .notFound }, true) := by
  rw [run, bind_of_ok (readSet_eq_ok.mpr h.middle_eq), bind_of_ok (readAt_eq_ok.mpr hx), hg]
  rfl

/-- **One step** either ends the search, with the right answer, or leaves less to do. -/
theorem run_going (hs : v.Pairwise (· ≤ ·)) (h : f.Going v) :
    ∃ g done, f.run v = .ok (g, done) ∧
      (done = true → g.state = if f.val ∈ v then .found else .notFound) ∧
      (done = false → g.Going v ∧ g.val = f.val ∧ g.state = f.state ∧ g.len < f.len) := by
  obtain ⟨x, hx⟩ := h.covers.exists_middle h.len_pos
  obtain ⟨g, hg⟩ : ∃ g, f.halve f.window.middle x = g := ⟨_, rfl⟩
  have hval : g.val = f.val := hg ▸ halve_val f _ x
  rw [h.run_eq hx hg]
  by_cases heq : x = g.val
  · have hmem : f.val ∈ v := hval ▸ heq ▸ List.mem_of_getElem? hx
    rw [if_pos heq]
    exact ⟨_, _, rfl, fun _ => (if_pos hmem).symm, fun hd => nomatch hd⟩
  · have hwin : g.window = f.window.narrow x f.val := hg ▸ h.halve_window x
    have hstate : g.state = f.state := hg ▸ halve_state f _ x
    have hcovers : g.window.Covers v f.val := hwin ▸ h.covers.narrow hs h.len_pos hx (hval ▸ heq)
    rw [if_neg heq]
    by_cases hlen : 0 < g.len
    · have hlt : g.window.len < f.window.len :=
        hwin ▸ Window.narrow_len_lt (w := f.window) h.len_pos x f.val
      rw [if_pos hlen, bind_of_ok (prefetch_eq hcovers hlen)]
      exact ⟨_, _, rfl, fun hd => absurd hd Bool.false_ne_true,
        fun _ => ⟨⟨hlen, rfl, rfl, hval.symm ▸ hcovers⟩, hval, hstate, hlt⟩⟩
    · have hmem : f.val ∉ v := hcovers.notMem (Nat.eq_zero_of_not_pos hlen)
      rw [if_neg hlen]
      exact ⟨_, _, rfl, fun _ => (if_neg hmem).symm, fun hd => nomatch hd⟩

end Frame

/-! ## Frames that take turns -/

def isGoing (fr : Frame) : Bool := fr.state = .keepGoing

def hit (fr : Frame) : Nat := if fr.val ∈ v then 1 else 0

/-- How many of the searches that are under way will find something. -/
def owed (s : Sm) : Nat := total (hit v) isGoing s.f

/-- How much the searches that are under way still look at. -/
def work (s : Sm) : Nat := total Frame.len isGoing s.f

/-- The lookups that have been started are counted, or will be. -/
structure Sound (started : List Int) (s : Sm) : Prop where
  length : s.f.length = N + 1
  turn : s.i ≤ N
  going : ∀ fr ∈ s.f, isGoing fr → fr.Going v
  counted : s.result + owed v s = started.countP fun key => key ∈ v

variable {v N} {started : List Int} {s : Sm}

theorem Sound.work_le (h : Sound v N started s) : work s ≤ (N + 1) * v.length := by
  rw [← h.length]
  exact total_le fun fr hfr hgo => (h.going fr hfr hgo).len_le

theorem Sound.exists_frame (h : Sound v N started s) : ∃ fr, s.f[s.i]? = some fr := by
  have hi : s.i < s.f.length := by
    rw [h.length]
    exact Nat.lt_succ_of_le h.turn
  exact ⟨_, List.getElem?_eq_getElem hi⟩

theorem nextFrame_le {i : Nat} (h : i ≤ N) : nextFrame N i ≤ N := by
  unfold nextFrame
  split <;> omega

/-- What a step of a search changes of what is counted. -/
theorem run_counts (hs : v.Pairwise (· ≤ ·)) {fr : Frame} (h : fr.Going v) (hgo : isGoing fr) :
    ∃ g done, fr.run v = .ok (g, done) ∧ (isGoing g ↔ done = false) ∧ (isGoing g → g.Going v) ∧
      (if done ∧ g.state = .found then 1 else 0) + (if isGoing g then hit v g else 0) = hit v fr ∧
      (if isGoing g then g.len else 0) < fr.len := by
  obtain ⟨g, done, hrun, hdone, hmore⟩ := Frame.run_going hs h
  refine ⟨g, done, hrun, ?_⟩
  have hpos := h.len_pos
  cases done with
  | true =>
    have hstate := hdone rfl
    by_cases hmem : fr.val ∈ v
    · rw [if_pos hmem] at hstate
      simp [isGoing, hstate, hit, hmem, hpos]
    · rw [if_neg hmem] at hstate
      simp [isGoing, hstate, hit, hmem, hpos]
  | false =>
    obtain ⟨hgoing, hval, hstate, hlt⟩ := hmore rfl
    have hgo' : isGoing g := by
      rw [isGoing, hstate]
      exact hgo
    simp [hgo', hgoing, hit, hval, hlt]

/-- One search goes on, in its frame. -/
theorem runFrame_sound (hs : v.Pairwise (· ≤ ·)) (h : Sound v N started s) {j : Nat} {fr : Frame}
    (hj : s.f[j]? = some fr) (hgo : isGoing fr) :
    ∃ t g done, runFrame v s j = .ok (t, done) ∧ Sound v N started t ∧ work t < work s ∧
      t.i = s.i ∧ t.f = s.f.set j g ∧ (isGoing g ↔ done = false) := by
  obtain ⟨g, done, hrun, hdone, hgoing, hcredit, hlt⟩ :=
    run_counts hs (h.going fr (List.mem_of_getElem? hj) hgo) hgo
  have hframe : runFrame v s j = .ok (⟨s.f.set j g, s.i,
      if done ∧ g.state = .found then s.result + 1 else s.result⟩, done) := by
    rw [runFrame, bind_of_ok (readAt_eq_ok.mpr hj), bind_of_ok hrun]
    exact bind_of_ok (writeAt_of_lt g (List.getElem?_eq_some_iff.mp hj).1) _
  have howed := total_set (f := hit v) (p := isGoing) (b := g) hj
  have hwork := total_set (f := Frame.len) (p := isGoing) (b := g) hj
  have hcounted := h.counted
  rw [if_pos hgo] at howed hwork
  refine ⟨_, g, done, hframe, ⟨?_, h.turn, ?_, ?_⟩, ?_, rfl, rfl, hdone⟩
  · rw [List.length_set, h.length]
  · intro f hf hgo'
    rcases List.mem_or_eq_of_mem_set hf with hf | rfl
    · exact h.going f hf hgo'
    · exact hgoing hgo'
  · rw [← hcounted]
    simp only [owed]
    split at hcredit
    · rename_i hfound
      rw [if_pos hfound]
      omega
    · rename_i hfound
      rw [if_neg hfound]
      omega
  · simp only [work]
    omega

/-- The next lookup takes the place of a search that is over. -/
theorem initFrame_sound (hv : v ≠ []) (h : Sound v N started s) (key : Int) {fr : Frame}
    (hi : s.f[s.i]? = some fr) (hgo : ¬ isGoing fr) :
    ∃ t g, initFrame v N key s = .ok t ∧ Sound v N (started ++ [key]) t ∧
      t.i = nextFrame N s.i ∧ t.f = s.f.set s.i g ∧ isGoing g := by
  obtain ⟨g, hinit, hstate, hval, hgoing⟩ := Frame.init_going hv fr key
  have hgo' : isGoing g := decide_eq_true hstate
  have hframe : initFrame v N key s = .ok ⟨s.f.set s.i g, nextFrame N s.i, s.result⟩ := by
    rw [initFrame, bind_of_ok (readAt_eq_ok.mpr hi), bind_of_ok hinit]
    exact bind_of_ok (writeAt_of_lt g (List.getElem?_eq_some_iff.mp hi).1) _
  have howed := total_set (f := hit v) (p := isGoing) (b := g) hi
  have hcounted := h.counted
  rw [if_neg hgo, if_pos hgo'] at howed
  refine ⟨_, g, hframe, ⟨?_, nextFrame_le h.turn, ?_, ?_⟩, rfl, rfl, hgo'⟩
  · rw [List.length_set, h.length]
  · intro f hf hgo''
    rcases List.mem_or_eq_of_mem_set hf with hf | rfl
    · exact h.going f hf hgo''
    · exact hgoing
  · have hkey : [key].countP (fun key => key ∈ v) = hit v g := by
      rw [List.countP_singleton, hit, hval]
      simp
    rw [List.countP_append, hkey, ← hcounted]
    simp only [owed]
    omega

/-! ## The loop over the lookups -/

def Full (s : Sm) : Prop := ∀ (j : Nat) (fr : Frame), s.f[j]? = some fr → isGoing fr

/-- At first, the frames are filled from the last to the first. -/
def Filling (s : Sm) : Prop :=
  ∀ (j : Nat) (fr : Frame), s.f[j]? = some fr → (isGoing fr ↔ s.i < j)

/-- A frame is set to a search that is under way. -/
theorem isGoing_of_set {f : List Frame} {i : Nat} {g : Frame} (hg : isGoing g)
    (h : ∀ j fr, j ≠ i → f[j]? = some fr → isGoing fr) {j : Nat} {fr : Frame}
    (hj : (f.set i g)[j]? = some fr) : isGoing fr := by
  rw [List.getElem?_set] at hj
  split at hj
  · split at hj
    · cases hj
      exact hg
    · cases hj
  · rename_i hne
    exact h j fr (Ne.symm hne) hj

theorem Filling.next (h : Filling s) {t : Sm} {g : Frame} (hi : t.i = nextFrame N s.i)
    (hf : t.f = s.f.set s.i g) (hg : isGoing g) : Full t ∨ Filling t := by
  rcases Nat.eq_zero_or_pos s.i with hzero | hpos
  · left
    intro j fr hj
    rw [hf] at hj
    exact isGoing_of_set hg (fun k fr hk hget => (h k fr hget).mpr (by omega)) hj
  · right
    intro j fr hj
    rw [hf, List.getElem?_set] at hj
    rw [hi, nextFrame, if_neg (by omega)]
    split at hj
    · split at hj
      · cases hj
        exact iff_of_true hg (by omega)
      · cases hj
    · rw [h j fr hj]
      omega

/-- **One search ends**, whichever it is, and the next lookup starts. -/
theorem untilDone_sound (hv : v ≠ []) (hs : v.Pairwise (· ≤ ·)) (key : Int) {fuel : Nat}
    (h : Sound v N started s) (hfull : Full s) (hfuel : work s < fuel) :
    ∃ t, untilDone v N key fuel s = .ok t ∧ Sound v N (started ++ [key]) t ∧ Full t := by
  induction fuel generalizing s with
  | zero => omega
  | succ fuel ih =>
    obtain ⟨fr, hi⟩ := h.exists_frame
    obtain ⟨t, g, done, hrun, ht, hwork, hturn, hf, hdone⟩ := runFrame_sound hs h hi (hfull _ _ hi)
    have hothers : ∀ j fr, j ≠ s.i → t.f[j]? = some fr → isGoing fr := by
      intro j fr' hj hget
      rw [hf, List.getElem?_set_ne (Ne.symm hj)] at hget
      exact hfull j fr' hget
    rw [untilDone, bind_of_ok hrun]
    cases done with
    | true =>
      have hg : t.f[t.i]? = some g := by
        rw [hf, hturn, List.getElem?_set_self (List.getElem?_eq_some_iff.mp hi).1]
      obtain ⟨u, g', hinit, hu, -, hf', hg'⟩ := initFrame_sound hv ht key hg
        fun hgo => nomatch hdone.mp hgo
      refine ⟨u, hinit, hu, fun j fr' hj => ?_⟩
      rw [hf'] at hj
      exact isGoing_of_set hg' (fun k fr' hk => hothers k fr' (hturn ▸ hk)) hj
    | false =>
      have hnext : Sound v N started { t with i := nextFrame N t.i } :=
        ⟨ht.length, nextFrame_le ht.turn, ht.going, ht.counted⟩
      refine ih hnext (fun j fr' hj => ?_) (Nat.lt_of_lt_of_le hwork (Nat.le_of_lt_succ hfuel))
      have hj' : t.f[j]? = some fr' := hj
      rw [hf] at hj'
      exact isGoing_of_set (hdone.mpr rfl) (fun k fr' _ hget => hfull k fr' hget) hj'

theorem smLookup_sound (hv : v ≠ []) (hs : v.Pairwise (· ≤ ·)) (key : Int) {fuel : Nat}
    (h : Sound v N started s) (hturns : Full s ∨ Filling s) (hfuel : (N + 1) * v.length < fuel) :
    ∃ t, smLookup v N fuel s key = .ok t ∧ Sound v N (started ++ [key]) t ∧
      (Full t ∨ Filling t) := by
  obtain ⟨fr, hi⟩ := h.exists_frame
  rw [smLookup, bind_of_ok (readAt_eq_ok.mpr hi)]
  rcases hturns with hfull | hfilling
  · have hgo : fr.state = .keepGoing := of_decide_eq_true (hfull _ _ hi)
    obtain ⟨t, hrun, ht, hfull'⟩ :=
      untilDone_sound hv hs key h hfull (Nat.lt_of_le_of_lt h.work_le hfuel)
    rw [if_neg (not_not_intro hgo)]
    exact ⟨t, hrun, ht, .inl hfull'⟩
  · have hgo : ¬ isGoing fr := fun hgo => absurd ((hfilling _ _ hi).mp hgo) (Nat.lt_irrefl _)
    obtain ⟨t, g, hinit, ht, hturn, hf, hg⟩ := initFrame_sound hv h key hi hgo
    rw [if_pos fun hstate => hgo (decide_eq_true hstate)]
    exact ⟨t, hinit, ht, hfilling.next hturn hf hg⟩

/-! ## The last loop -/

/-- What a round has come to, before it looks at the frame at `k`. -/
structure Drained (v : List Int) (N : Nat) (started : List Int) (s : Sm) (k : Nat)
    (r : Sm × Bool) : Prop where
  sound : Sound v N started r.1
  more : r.2 = true → work r.1 < work s
  idle : r.2 = false → r.1 = s ∧ ∀ j < k, ∀ fr, s.f[j]? = some fr → ¬ isGoing fr

theorem drainFrame_drained (hs : v.Pairwise (· ≤ ·)) {k : Nat} (hk : k < N + 1) {r : Sm × Bool}
    (h : Drained v N started s k r) :
    ∃ r', drainFrame v r k = .ok r' ∧ Drained v N started s (k + 1) r' := by
  obtain ⟨t, moreWork⟩ := r
  obtain ⟨fr, hget⟩ : ∃ fr, t.f[k]? = some fr :=
    ⟨_, List.getElem?_eq_getElem (Nat.lt_of_lt_of_eq hk h.sound.length.symm)⟩
  have hle : work t ≤ work s := by
    cases moreWork with
    | true => exact Nat.le_of_lt (h.more rfl)
    | false => exact Nat.le_of_eq (congrArg work (h.idle rfl).1)
  rw [drainFrame, bind_of_ok (readAt_eq_ok.mpr hget)]
  by_cases hgo : fr.state = .keepGoing
  · obtain ⟨u, g, done, hrun, hu, hwork, -⟩ :=
      runFrame_sound hs h.sound hget (decide_eq_true hgo)
    rw [if_pos hgo, bind_of_ok hrun]
    exact ⟨_, rfl, hu, fun _ => Nat.lt_of_lt_of_le hwork hle, fun hmore => nomatch hmore⟩
  · rw [if_neg hgo]
    refine ⟨_, rfl, h.sound, h.more, fun hmore => ?_⟩
    obtain ⟨ht, hidle⟩ := h.idle hmore
    refine ⟨ht, fun j hj fr' hget' => ?_⟩
    rcases Nat.lt_succ_iff_lt_or_eq.mp hj with hlt | rfl
    · exact hidle j hlt fr' hget'
    · have hsame : fr = fr' := by
        rw [← ht, hget, Option.some.injEq] at hget'
        exact hget'
      exact fun hgo' => hgo (hsame ▸ of_decide_eq_true hgo')

/-- **All searches end**, and all of them are counted. -/
theorem drain_sound (hs : v.Pairwise (· ≤ ·)) {fuel : Nat} (h : Sound v N started s)
    (hfuel : work s < fuel) :
    ∃ t, drain v fuel s = .ok t ∧ t.result = started.countP fun key => key ∈ v := by
  induction fuel generalizing s with
  | zero => omega
  | succ fuel ih =>
    have hfirst : Drained v N started s 0 (s, false) :=
      ⟨h, fun hmore => absurd hmore Bool.false_ne_true,
        fun _ => ⟨rfl, fun j hj => absurd hj (Nat.not_lt_zero j)⟩⟩
    obtain ⟨⟨t, moreWork⟩, hround, ht⟩ := foldlM_range_inv (Drained v N started s) (N + 1)
      (fun k hk r hr => drainFrame_drained hs hk hr) hfirst
    rw [drain, h.length, bind_of_ok hround]
    cases moreWork with
    | true => exact ih ht.sound (Nat.lt_of_lt_of_le (ht.more rfl) (Nat.le_of_lt_succ hfuel))
    | false =>
      obtain ⟨hsame, hidle⟩ := ht.idle rfl
      have hts : t = s := hsame
      -- nothing is under way, so nothing is owed
      have howed : owed v t = 0 := by
        refine total_eq_zero fun fr hfr => Bool.eq_false_iff.mpr ?_
        obtain ⟨j, hj⟩ := List.mem_iff_getElem?.mp hfr
        have hlt : j < N + 1 := ht.sound.length ▸ (List.getElem?_eq_some_iff.mp hj).1
        exact hidle j hlt fr (hts ▸ hj)
      have hcounted := ht.sound.counted
      rw [howed] at hcounted
      exact ⟨t, rfl, hcounted⟩

/-! ## The whole lookup -/

/-- New frames are empty. -/
theorem new_sound (v : List Int) (streams : Nat) (h : 1 ≤ streams) :
    Sound v (streams - 1) [] ⟨List.replicate streams .new, streams - 1, 0⟩ ∧
      Filling ⟨List.replicate streams .new, streams - 1, 0⟩ := by
  have hnew : ∀ fr ∈ List.replicate streams Frame.new, isGoing fr = false := by
    intro fr hfr
    rw [List.eq_of_mem_replicate hfr]
    rfl
  refine ⟨⟨?_, Nat.le_refl _, ?_, ?_⟩, ?_⟩
  · rw [List.length_replicate, Nat.sub_add_cancel h]
  · intro fr hfr hgo
    rw [hnew fr hfr] at hgo
    cases hgo
  · rw [owed, total_eq_zero hnew]
    rfl
  · intro j fr hj
    have hlt := (List.getElem?_eq_some_iff.mp hj).1
    rw [hnew fr (List.mem_of_getElem? hj)]
    rw [List.length_replicate] at hlt
    exact iff_of_false Bool.false_ne_true (Nat.not_lt.mpr (Nat.le_sub_one_of_lt hlt))

theorem lookups_sound (hv : v ≠ []) (hs : v.Pairwise (· ≤ ·)) {fuel : Nat}
    (hfuel : (N + 1) * v.length < fuel) (lookups : List Int) (h : Sound v N started s)
    (hturns : Full s ∨ Filling s) :
    ∃ t, lookups.foldlM (smLookup v N fuel) s = .ok t ∧ Sound v N (started ++ lookups) t := by
  induction lookups generalizing started s with
  | nil => exact ⟨s, rfl, by rw [List.append_nil]; exact h⟩
  | cons key lookups ih =>
    obtain ⟨u, hrun, hu, hturns'⟩ := smLookup_sound hv hs key h hturns hfuel
    obtain ⟨t, hrest, ht⟩ := ih hu hturns'
    rw [List.append_assoc] at ht
    exact ⟨t, foldlM_cons_ok.mpr ⟨u, hrun, hrest⟩, ht⟩

/-- **The interleaved searches** end, stay in the vector and count as the naive search
does: how often what is looked up occurs in the vector. -/
theorem sm_counts (v lookups : List Int) (streams : Nat) (hv : v ≠ []) (hs : v.Pairwise (· ≤ ·))
    (hstreams : 1 ≤ streams) :
    (∀ fuel, streams * v.length < fuel → smMultiLookup fuel v lookups streams =
      .ok (lookups.countP fun key => key ∈ v)) ∧
    (lookups.countP fun key => key ∈ v) =
      lookups.countP fun key => naiveBinarySearch v key = .ok true := by
  refine ⟨fun fuel hfuel => ?_, (countP_naive hs lookups).symm⟩
  obtain ⟨hsound, hfilling⟩ := new_sound v streams hstreams
  have hfuel' : (streams - 1 + 1) * v.length < fuel := by
    rw [Nat.sub_add_cancel hstreams]
    exact hfuel
  obtain ⟨s, hlookups, hs'⟩ := lookups_sound hv hs hfuel' lookups hsound (.inr hfilling)
  obtain ⟨t, hdrain, hresult⟩ := drain_sound hs hs' (Nat.lt_of_le_of_lt hs'.work_le hfuel')
  have hbeg := List.getElem?_eq_getElem (List.length_pos_iff.mpr hv)
  rw [smMultiLookup, bind_of_ok (readAt_eq_ok.mpr hbeg), bind_of_ok hlookups, bind_of_ok hdrain,
    hresult]
  rfl

/-- Two frames, six lookups. -/
theorem sm_counts_six : smMultiLookup 9 [1, 3, 3, 7] [3, 2, 7, 3, 8, 0] 2 = .ok 3 :=
  (sm_counts [1, 3, 3, 7] [3, 2, 7, 3, 8, 0] 2 (by decide) (by decide) (by decide)).1 9 (by decide)

end Doradd.Prefetch
