import Mathlib.Data.Finset.Basic
import Mathlib.Data.List.Basic
import Doradd.Lib.Fallible

/-!
# Sets that are asked one request at a time

* `answersM_refine`: an implementation whose state stands for a set, and whose answers are
  those of the set, gives the answers of the set in every sequence of requests;
* `swapRemove_perm`: taking an element out of a vector by putting the last one in its
  place.
-/

namespace Lib

/-! ## Requests -/

inductive SetOp (T : Type)
  | insert (v : T)
  | remove (v : T)
  | find (v : T)
  deriving DecidableEq, Repr

/-- The answer of a set to a request, and the set afterwards. -/
def SetOp.apply {T : Type} [DecidableEq T] (S : Finset T) : SetOp T → Bool × Finset T
  | .insert v => (decide (v ∉ S), Insert.insert v S)
  | .remove v => (decide (v ∈ S), S.erase v)
  | .find v => (decide (v ∈ S), S)

/-- The answers to requests one after the other, and the state afterwards. -/
def answers {σ α : Type} (step : σ → α → Bool × σ) (s : σ) : List α → List Bool × σ
  | [] => ([], s)
  | a :: as =>
    let (b, s) := step s a
    let (bs, s) := answers step s as
    (b :: bs, s)

/-- The same for steps that may fail. -/
def answersM {σ α ε : Type} (step : σ → α → Except ε (Bool × σ)) (s : σ) :
    List α → Except ε (List Bool × σ)
  | [] => .ok ([], s)
  | a :: as => do
    let (b, s) ← step s a
    let (bs, s) ← answersM step s as
    pure (b :: bs, s)

/-- **Refinement**, request by request. -/
theorem answersM_refine {σ τ α ε : Type} {step : σ → α → Except ε (Bool × σ)}
    {spec : τ → α → Bool × τ} {R : σ → τ → Prop}
    (hstep : ∀ s t a, R s t → ∃ s', step s a = .ok ((spec t a).1, s') ∧ R s' (spec t a).2)
    {s : σ} {t : τ} (h : R s t) (as : List α) :
    ∃ s', answersM step s as = .ok ((answers spec t as).1, s') ∧
      R s' (answers spec t as).2 := by
  induction as generalizing s t with
  | nil => exact ⟨s, rfl, h⟩
  | cons a as ih =>
    obtain ⟨s₁, hs₁, hr⟩ := hstep s t a h
    obtain ⟨s₂, hs₂, hr'⟩ := ih hr
    refine ⟨s₂, ?_, hr'⟩
    rw [answersM, bind_of_ok hs₁]
    simp only [bind_of_ok hs₂]
    rfl

/-! ## Vectors without duplicates -/

/-- `std::iter_swap`, for two positions that are there. -/
def iterSwap {T : Type} (xs : List T) (i j : Nat) : List T :=
  match xs[i]?, xs[j]? with
  | some a, some b => (xs.set i b).set j a
  | _, _ => xs

/-- **The last element takes the place of the one that goes.** -/
theorem swapRemove_perm {T : Type} (xs : List T) {i : Nat} (h : i < xs.length) :
    (iterSwap xs i (xs.length - 1)).dropLast.Perm (xs.eraseIdx i) := by
  obtain ⟨l, a, r, rfl, rfl⟩ : ∃ l a r, xs = l ++ a :: r ∧ i = l.length := by
    refine ⟨xs.take i, xs[i], xs.drop (i + 1), ?_, ?_⟩
    · rw [List.getElem_cons_drop, List.take_append_drop]
    · rw [List.length_take, Nat.min_eq_left (Nat.le_of_lt h)]
  have herase : (l ++ a :: r).eraseIdx l.length = l ++ r := by
    rw [List.eraseIdx_append_of_length_le (Nat.le_refl _), Nat.sub_self, List.eraseIdx_cons_zero]
  rw [herase]
  rcases List.eq_nil_or_concat r with rfl | ⟨r, b, rfl⟩
  · simp [iterSwap]
  · have hlast : (l ++ a :: r.concat b).length - 1 = (l ++ a :: r).length := by
      simp
    have hswap : iterSwap (l ++ a :: r.concat b) l.length ((l ++ a :: r.concat b).length - 1) =
        (l ++ b :: r) ++ [a] := by
      rw [hlast]
      simp [iterSwap]
    rw [hswap, List.dropLast_concat]
    rw [List.concat_eq_append]
    exact (List.perm_append_singleton b r).symm.append_left l

end Lib
