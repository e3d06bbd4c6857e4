import Mathlib.Algebra.Ring.Int.Defs
import Mathlib.Algebra.Ring.Nat
import Mathlib.Data.List.Chain
import Mathlib.Data.Int.Order.Basic
import Doradd.Lib.Bisect
import Doradd.Lib.Fallible

/-!
# Binary search with prefetching

The search of the benchmark adds its bounds as signed integers, and the build that
prefetches adds some more of them before each comparison.

* `searchLoop_step`: what one round comes to while no sum overflows;
* `searchLoop_runs`: both builds look at the same elements, and each was prefetched a
  round before;
* `searchLoop_overflow`: in a long list, the sum of the bounds overflows;
* `binarySearch_iff`: all searches of sorted lists of one length go well exactly up to
  `2 ^ 30` elements.
-/

namespace Doradd.Prefetch

open Lib

/-! ## Signed integers -/

/-- How a search goes wrong. -/
inductive Stop
  | outOfBounds
  | overflow
  deriving DecidableEq, Repr

/-- A sum or difference has to be an `int`. -/
def checkInt (x : Int) : Except Stop Unit :=
  if -2 ^ 31 ≤ x ∧ x < 2 ^ 31 then .ok () else .error .overflow

/-- `array[i]` -/
def elementAt (array : List Int) (i : Int) : Except Stop Int :=
  if 0 ≤ i then
    match array[i.toNat]? with
    | some x => .ok x
    | none => .error .outOfBounds
  else
    .error .outOfBounds

/-! ## prefetch/bin_search/bin_search.cpp -/

/-- What a round of the loop touches. -/
structure Round where
  mid : Int
  prefetched : List Int
  deriving DecidableEq, Repr

/-- The positions in the calls of `__builtin_prefetch`, with and without `DO_PREFETCH`. -/
def prefetches (doPrefetch : Bool) (low high mid : Int) : Except Stop (List Int) :=
  if doPrefetch then do
    checkInt (mid + 1)
    checkInt (mid + 1 + high)
    checkInt (low + mid)
    checkInt (low + mid - 1)
    pure [(mid + 1 + high).tdiv 2, (low + mid - 1).tdiv 2]
  else
    pure []

theorem le_tdiv_two {low high : Int} (h : low ≤ high) :
    low ≤ (low + high).tdiv 2 ∧ (low + high).tdiv 2 ≤ high := by
  rw [Int.tdiv_eq_ediv]
  split
  · omega
  · rename_i hneg
    simp only [not_or, Int.not_le] at hneg
    have hsign : (2 : Int).sign = 1 := rfl
    rw [hsign]
    omega

/-- The loop of `binarySearch`: the result, and the rounds. -/
def searchLoop (doPrefetch : Bool) (array : List Int) (key low high : Int) :
    Except Stop (Int × List Round) :=
  if low ≤ high then do
    checkInt (low + high)
    let mid := (low + high).tdiv 2
    let prefetched ← prefetches doPrefetch low high mid
    let x ← elementAt array mid
    if x < key then do
      checkInt (mid + 1)
      let (result, rounds) ← searchLoop doPrefetch array key (mid + 1) high
      pure (result, ⟨mid, prefetched⟩ :: rounds)
    else if x = key then
      pure (mid, [⟨mid, prefetched⟩])
    else do
      checkInt (mid - 1)
      let (result, rounds) ← searchLoop doPrefetch array key low (mid - 1)
      pure (result, ⟨mid, prefetched⟩ :: rounds)
  else
    pure (-1, [])
termination_by (high + 1 - low).toNat
decreasing_by
  all_goals
    have hmid := le_tdiv_two ‹low ≤ high›
    omega

def binarySearch (doPrefetch : Bool) (array : List Int) (numberOfElements key : Int) :
    Except Stop (Int × List Round) := do
  checkInt (numberOfElements - 1)
  searchLoop doPrefetch array key 0 (numberOfElements - 1)

/-! ## Rounds -/

theorem checkInt_of_int {x : Int} (h : -2 ^ 31 ≤ x) (h' : x < 2 ^ 31) : checkInt x = .ok () :=
  if_pos ⟨h, h'⟩

theorem checkInt_overflow {x : Int} (h : 2 ^ 31 ≤ x) : checkInt x = .error .overflow :=
  if_neg fun h' => absurd h'.2 (Int.not_lt.mpr h)

theorem elementAt_of_some {array : List Int} {i : Nat} {x : Int} (h : array[i]? = some x) :
    elementAt array i = .ok x := by
  rw [elementAt, if_pos (Int.natCast_nonneg i), Int.toNat_natCast, h]

/-- The position that a round of the loop looks at, with the bounds of `w`. -/
def midOf (w : Window) : Nat := w.first + (w.len - 1) / 2

/-- The upper bound of a window. -/
def highOf (w : Window) : Int := w.first + w.len - 1

/-- What the next round looks at, on either path. -/
def ahead (w : Window) : List Int :=
  [(midOf w + 1 + highOf w).tdiv 2, (w.first + midOf w - 1 : Int).tdiv 2]

section
variable {w : Window}

theorem midOf_lt (hlen : 0 < w.len) : midOf w < w.first + w.len := by
  unfold midOf
  omega

theorem tdiv_bounds (hlen : 0 < w.len) : (w.first + highOf w).tdiv 2 = midOf w := by
  have hpos : (0 : Int) ≤ w.first + highOf w := by
    unfold highOf
    omega
  rw [Int.tdiv_eq_ediv_of_nonneg hpos]
  unfold highOf midOf
  omega

theorem highOf_above (hlen : 0 < w.len) : highOf (w.above (midOf w)) = highOf w := by
  have hlt := midOf_lt hlen
  simp only [highOf, Window.above]
  omega

theorem highOf_below (w : Window) : highOf (w.below (midOf w)) = midOf w - 1 := by
  have hle : w.first ≤ midOf w := Nat.le_add_right w.first _
  simp only [highOf, Window.below]
  omega

/-- The two paths are prefetched, -/
theorem midOf_above (h : 0 < (w.above (midOf w)).len) :
    (midOf (w.above (midOf w)) : Int) ∈ ahead w := by
  have hlen : 0 < w.len := by
    simp only [Window.above] at h
    unfold midOf at h
    omega
  have hmid := tdiv_bounds h
  rw [highOf_above hlen] at hmid
  rw [← hmid]
  exact List.mem_cons_self

theorem midOf_below (h : 0 < (w.below (midOf w)).len) :
    (midOf (w.below (midOf w)) : Int) ∈ ahead w := by
  have hmid := tdiv_bounds h
  rw [highOf_below, ← Int.add_sub_assoc] at hmid
  rw [← hmid]
  exact List.mem_cons_of_mem _ List.mem_cons_self

/-- and what is prefetched lies in the list even where there is no such path. -/
theorem ahead_inside (hlen : 0 < w.len) : ∀ i ∈ ahead w, 0 ≤ i ∧ i < (w.first + w.len : Nat) := by
  have hlow : (0 : Int) ≤ midOf w + 1 + highOf w := by
    unfold highOf
    omega
  intro i hi
  rcases List.mem_cons.mp hi with rfl | hi
  · rw [Int.tdiv_eq_ediv_of_nonneg hlow]
    have hlt := midOf_lt hlen
    unfold highOf
    omega
  · obtain rfl := List.mem_singleton.mp hi
    have hlt := midOf_lt hlen
    rcases Nat.eq_zero_or_pos (w.first + midOf w) with hzero | hpos
    · have hsum : (w.first + midOf w - 1 : Int) = -1 := by omega
      rw [hsum]
      have hdiv : (-1 : Int).tdiv 2 = 0 := rfl
      omega
    · rw [Int.tdiv_eq_ediv_of_nonneg (by omega)]
      unfold midOf at *
      omega

end

variable {array : List Int} {key x : Int} {w : Window}

/-- What is left of a search after a round has read `x`. -/
def rest (doPrefetch : Bool) (array : List Int) (key x : Int) (w : Window) :
    Except Stop (Int × List Round) :=
  if x < key then
    searchLoop doPrefetch array key (w.above (midOf w)).first (highOf (w.above (midOf w)))
  else if x = key then .ok (midOf w, [])
  else searchLoop doPrefetch array key (w.below (midOf w)).first (highOf (w.below (midOf w)))

theorem prefetches_ok (hin : 2 * (w.first + w.len) ≤ 2 ^ 31) (hlen : 0 < w.len)
    (doPrefetch : Bool) : prefetches doPrefetch w.first (highOf w) (midOf w) =
      .ok (if doPrefetch then ahead w else []) := by
  have hlt := midOf_lt hlen
  cases doPrefetch with
  | false => rfl
  | true =>
    show (do checkInt _; checkInt _; checkInt _; checkInt _; pure _ : Except Stop _) = _
    rw [checkInt_of_int (by omega) (by omega),
      checkInt_of_int (by unfold highOf; omega) (by unfold highOf; omega),
      checkInt_of_int (by omega) (by omega), checkInt_of_int (by omega) (by omega)]
    rfl

/-- **One round** in bounds whose sums are integers. -/
theorem searchLoop_step (doPrefetch : Bool) (hin : 2 * (w.first + w.len) ≤ 2 ^ 31)
    (hlen : 0 < w.len) (hx : array[midOf w]? = some x) :
    searchLoop doPrefetch array key w.first (highOf w) = (do
      let (result, rounds) ← rest doPrefetch array key x w
      pure (result, ⟨midOf w, if doPrefetch then ahead w else []⟩ :: rounds)) := by
  have hlt := midOf_lt hlen
  have hle : w.first ≤ midOf w := Nat.le_add_right w.first _
  rw [searchLoop, if_pos (by unfold highOf; omega), tdiv_bounds hlen]
  rw [checkInt_of_int (by unfold highOf; omega) (by unfold highOf; omega)]
  refine (bind_of_ok rfl _).trans ?_
  refine (bind_of_ok (prefetches_ok hin hlen doPrefetch) _).trans ?_
  refine (bind_of_ok (elementAt_of_some hx) _).trans ?_
  unfold rest
  split
  · rw [checkInt_of_int (by omega) (by omega), highOf_above hlen]
    exact bind_of_ok rfl _
  · split
    · rfl
    · rw [checkInt_of_int (by omega) (by omega), highOf_below]
      exact bind_of_ok rfl _

theorem searchLoop_done (doPrefetch : Bool) (hlen : w.len = 0) :
    searchLoop doPrefetch array key w.first (highOf w) = .ok (-1, []) := by
  rw [searchLoop, if_neg (by unfold highOf; omega)]
  rfl

/-! ## Searches -/

/-- The result says where `key` is, or that it is not there. -/
structure Answers (array : List Int) (key result : Int) : Prop where
  found : key ∈ array → ∃ i : Nat, result = i ∧ array[i]? = some key
  missing : key ∉ array → result = -1

/-- A round of the build that does not prefetch. -/
def Round.bare (q : Round) : Round := { q with prefetched := [] }

/-- How a search of the positions in `w` goes if it prefetches. -/
structure Looked (array : List Int) (key : Int) (w : Window) (result : Int)
    (rounds : List Round) : Prop where
  inside : ∀ q ∈ rounds, ∀ i ∈ q.mid :: q.prefetched, 0 ≤ i ∧ i < array.length
  prefetched : rounds.IsChain fun q q' => q'.mid ∈ q.prefetched
  first : ∀ q ∈ rounds.head?, 0 < w.len ∧ q.mid = midOf w
  few : ∀ k, w.len < 2 ^ k → rounds.length ≤ k
  right : array.Pairwise (· ≤ ·) → w.Covers array key → Answers array key result

theorem Looked.done (hlen : w.len = 0) : Looked array key w (-1) [] where
  inside _ hq := absurd hq List.not_mem_nil
  prefetched := List.isChain_nil
  first _ hq := nomatch hq
  few _ _ := Nat.zero_le _
  right _ hcov := ⟨fun hmem => absurd hmem (hcov.notMem hlen), fun _ => rfl⟩

theorem mid_inside (hin : w.first + w.len ≤ array.length) (hlen : 0 < w.len) :
    ∀ i ∈ (midOf w : Int) :: ahead w, 0 ≤ i ∧ i < array.length := by
  have hlt := midOf_lt hlen
  intro i hi
  rcases List.mem_cons.mp hi with rfl | hi
  · omega
  · have h := ahead_inside hlen i hi
    omega

theorem Looked.hit (hin : w.first + w.len ≤ array.length) (hlen : 0 < w.len)
    (hx : array[midOf w]? = some key) : Looked array key w (midOf w) [⟨midOf w, ahead w⟩] where
  inside q hq := by
    obtain rfl := List.mem_singleton.mp hq
    exact mid_inside hin hlen
  prefetched := List.isChain_singleton _
  first q hq := by
    obtain rfl := Option.some.inj hq
    exact ⟨hlen, rfl⟩
  few k hk := by
    rcases k with _ | k
    · omega
    · exact Nat.le_add_left 1 k
  right _ _ := ⟨fun _ => ⟨midOf w, rfl, hx⟩,
    fun hmem => absurd (List.mem_of_getElem? hx) hmem⟩

/-- One more round in front, from the search of a half that was prefetched. -/
theorem Looked.cons {half : Window} {r : Int} {rounds : List Round}
    (h : Looked array key half r rounds) (hin : w.first + w.len ≤ array.length)
    (hlen : 0 < w.len) (hhalf : half.len ≤ w.len / 2)
    (hmid : 0 < half.len → (midOf half : Int) ∈ ahead w)
    (hcov : array.Pairwise (· ≤ ·) → w.Covers array key → half.Covers array key) :
    Looked array key w r (⟨midOf w, ahead w⟩ :: rounds) where
  inside q hq := by
    rcases List.mem_cons.mp hq with rfl | hq
    · exact mid_inside hin hlen
    · exact h.inside q hq
  prefetched := by
    rw [List.isChain_cons]
    refine ⟨fun q hq => ?_, h.prefetched⟩
    obtain ⟨hpos, heq⟩ := h.first q hq
    exact heq ▸ hmid hpos
  first q hq := by
    obtain rfl := Option.some.inj hq
    exact ⟨hlen, rfl⟩
  few k hk := by
    rcases k with _ | k
    · omega
    · exact Nat.succ_le_succ (h.few k (by omega))
  right hs hc := h.right hs (hcov hs hc)

/-- **Both builds**, as long as twice the positions are integers. -/
theorem searchLoop_runs (hn : array.length ≤ 2 ^ 30) (hin : w.first + w.len ≤ array.length) :
    ∃ r rounds, Looked array key w r rounds ∧
      searchLoop true array key w.first (highOf w) = .ok (r, rounds) ∧
      searchLoop false array key w.first (highOf w) = .ok (r, rounds.map Round.bare) := by
  induction hlen : w.len using Nat.strongRecOn generalizing w with
  | ind len ih =>
    subst hlen
    rcases Nat.eq_zero_or_pos w.len with hlen | hlen
    · exact ⟨-1, [], Looked.done hlen, searchLoop_done true hlen, searchLoop_done false hlen⟩
    · have hlt := midOf_lt hlen
      have hmid : w.first ≤ midOf w := Nat.le_add_right w.first _
      obtain ⟨x, hx⟩ : ∃ x, array[midOf w]? = some x :=
        ⟨_, List.getElem?_eq_getElem (Nat.lt_of_lt_of_le hlt hin)⟩
      rw [searchLoop_step true (by omega) hlen hx, searchLoop_step false (by omega) hlen hx]
      -- the search goes on in a half
      have hgo : ∀ half : Window, half.len ≤ w.len / 2 → half.first + half.len ≤ array.length →
          (0 < half.len → (midOf half : Int) ∈ ahead w) →
          (array.Pairwise (· ≤ ·) → w.Covers array key → half.Covers array key) →
          (∀ doPrefetch, rest doPrefetch array key x w =
            searchLoop doPrefetch array key half.first (highOf half)) →
          ∃ r rounds, Looked array key w r rounds ∧
            (rest true array key x w >>= fun (result, rounds) =>
              .ok (result, ⟨midOf w, ahead w⟩ :: rounds)) = .ok (r, rounds) ∧
            (rest false array key x w >>= fun (result, rounds) =>
              .ok (result, ⟨midOf w, []⟩ :: rounds)) = .ok (r, rounds.map Round.bare) := by
        intro half hhalf hin' hahead hcov hrest
        obtain ⟨r, rounds, hlook, htrue, hfalse⟩ := ih half.len (by omega) hin' rfl
        refine ⟨r, _, hlook.cons hin hlen hhalf hahead hcov, ?_, ?_⟩
        · rw [hrest, htrue]
          rfl
        · rw [hrest, hfalse]
          rfl
      rcases lt_trichotomy x key with hxlt | rfl | hxgt
      · refine hgo (w.above (midOf w)) ?_ ?_ midOf_above (fun hs hc => hc.above hs hlt hx hxlt)
          fun _ => if_pos hxlt
        · simp only [Window.above]
          unfold midOf
          omega
        · simp only [Window.above]
          omega
      · refine ⟨midOf w, _, Looked.hit hin hlen hx, ?_, ?_⟩
        · rw [rest, if_neg (lt_irrefl x), if_pos rfl]
          rfl
        · rw [rest, if_neg (lt_irrefl x), if_pos rfl]
          rfl
      · refine hgo (w.below (midOf w)) ?_ ?_ midOf_below
          (fun hs hc => hc.below hs hmid (Nat.le_of_lt hlt) hx hxgt)
          fun _ => (if_neg (lt_asymm hxgt)).trans (if_neg (ne_of_gt hxgt))
        · simp only [Window.below]
          unfold midOf
          omega
        · simp only [Window.below]
          omega

/-! ## Overflow -/

/-- The positions of a long list, searched for the last one: the sum of the bounds gets
too large before the search is done. -/
theorem searchLoop_overflow {n : Nat} (hn : 2 ^ 30 < n) {first : Nat} (hfirst : first < n) :
    searchLoop false ((List.range n).map Int.ofNat) (n - 1) first (n - 1) =
      .error .overflow := by
  induction hlen : n - first using Nat.strongRecOn generalizing first with
  | ind len ih =>
    subst hlen
    rw [searchLoop, if_pos (by omega)]
    rcases Int.lt_or_le (first + (n - 1)) (2 ^ 31) with hlt | hge
    · rw [checkInt_of_int (by omega) hlt]
      obtain ⟨mid, hmid⟩ : ∃ mid : Nat, (first + (n - 1) : Int).tdiv 2 = mid :=
        ⟨(first + (n - 1)) / 2, by rw [Int.tdiv_eq_ediv_of_nonneg (by omega)]; omega⟩
      have hbounds : first ≤ mid ∧ mid < n - 1 := by
        rw [Int.tdiv_eq_ediv_of_nonneg (by omega)] at hmid
        omega
      have hx : ((List.range n).map Int.ofNat)[mid]? = some (mid : Int) := by
        rw [List.getElem?_map, List.getElem?_range (by omega)]
        rfl
      rw [hmid]
      refine (bind_of_ok rfl _).trans ?_
      refine (bind_of_ok (a := []) rfl _).trans ?_
      refine (bind_of_ok (elementAt_of_some hx) _).trans ?_
      rw [if_pos (by omega), checkInt_of_int (by omega) (by omega)]
      have hnext := @ih (n - (mid + 1)) (by omega) (mid + 1) (by omega) rfl
      rw [Int.natCast_add, Int.natCast_one] at hnext
      refine (bind_of_ok rfl _).trans ?_
      rw [hnext]
      rfl
    · rw [checkInt_overflow hge]
      rfl

/-! ## Main result -/

/-- **How far the searches can be trusted**: with and without prefetching, every search of
every sorted list of `n` elements ends with the right answer, after the same few rounds,
each of which looks at what the one before has prefetched, exactly if `n` is at most
`2 ^ 30`. -/
theorem binarySearch_iff (n : Nat) :
    (∀ array : List Int, array.length = n → array.Pairwise (· ≤ ·) → ∀ key,
      ∃ r rounds, binarySearch true array n key = .ok (r, rounds) ∧
        binarySearch false array n key = .ok (r, rounds.map Round.bare) ∧
        Answers array key r ∧ (∀ k, n < 2 ^ k → rounds.length ≤ k) ∧
        (rounds.IsChain fun q q' => q'.mid ∈ q.prefetched) ∧
        ∀ q ∈ rounds, ∀ i ∈ q.mid :: q.prefetched, 0 ≤ i ∧ i < n) ↔ n ≤ 2 ^ 30 := by
  constructor
  · intro h
    by_contra hn
    have hs : ((List.range n).map Int.ofNat).Pairwise (· ≤ ·) := by
      rw [List.pairwise_map]
      exact List.pairwise_le_range.imp Int.ofNat_le.mpr
    obtain ⟨r, rounds, -, hbare, -⟩ := h _ (by rw [List.length_map, List.length_range]) hs (n - 1)
    rw [binarySearch] at hbare
    rcases Int.lt_or_le ((n : Int) - 1) (2 ^ 31) with hlt | hge
    · rw [checkInt_of_int (by omega) hlt] at hbare
      have hstop := @searchLoop_overflow n (Nat.not_le.mp hn) 0 (by omega)
      exact nomatch hstop.symm.trans hbare
    · rw [checkInt_overflow hge] at hbare
      exact nomatch hbare
  · rintro hn array rfl hs key
    obtain ⟨r, rounds, hlook, htrue, hfalse⟩ :=
      @searchLoop_runs array key ⟨0, array.length⟩ hn (Nat.le_of_eq (Nat.zero_add _))
    have hhigh : highOf ⟨0, array.length⟩ = (array.length : Int) - 1 := by
      simp only [highOf]
      omega
    rw [hhigh] at htrue hfalse
    have hcheck : checkInt ((array.length : Int) - 1) = .ok () :=
      checkInt_of_int (by omega) (by omega)
    exact ⟨r, rounds, (bind_of_ok hcheck _).trans htrue, (bind_of_ok hcheck _).trans hfalse,
      hlook.right hs (Window.covers_whole array key), hlook.few, hlook.prefetched, hlook.inside⟩

end Doradd.Prefetch
