import Mathlib.Algebra.BigOperators.Group.List.Basic
import Doradd.Lib.Machine

/-!
# Work that runs out

Some steps of a machine are work; one kind of step brings in more to do, and all others only
wait for something.  What is left to do is measured by a number.

* `Metered.bounded`: a run has no more work in it than what was brought in;
* `Metered.exists_drain`: work alone can bring a run to where the machine is idle, and
  everything that was brought in has been done.
-/

namespace Lib

namespace Machine

variable {σ lab : Type} [DecidableEq lab]

/-- While fewer than `n` requests `a` have come, each of them brings in `k` steps of work at
most, each step of work uses one up, and there is work to do until the machine is idle; then
as many requests are `done` as have come. -/
structure Metered (M : Machine σ lab) (a : lab) (n k : Nat) (works : lab → Bool)
    (left : σ → Nat) (idle : σ → Prop) (done : List lab → Nat) : Prop where
  not_works : works a = false
  spends : ∀ tr s l s', M.run tr = some s → (tr ++ [l]).count a < n → M.step s l = some s' →
    left s' + (works l).toNat ≤ left s + k * [l].count a
  works_or_idle : ∀ tr s, M.run tr = some s → tr.count a < n →
    (∃ l s', works l ∧ M.step s l = some s') ∨ idle s
  done_of_idle : ∀ tr s, M.run tr = some s → tr.count a < n → idle s → done tr = tr.count a

namespace Metered

variable {M : Machine σ lab} {a : lab} {n k : Nat} {works : lab → Bool} {left : σ → Nat}
  {idle : σ → Prop} {done : List lab → Nat} {tr : List lab} {s s' : σ} {l : lab}

/-- **A run has no more work in it than what was brought in.** -/
theorem bounded (hm : M.Metered a n k works left idle done) (h : M.run tr = some s)
    (hlt : tr.count a < n) : tr.countP works + left s ≤ left M.init + k * tr.count a := by
  revert hlt
  refine Machine.run_induction (P := fun tr s => tr.count a < n →
    tr.countP works + left s ≤ left M.init + k * tr.count a) ?_ ?_ h
  · intro _
    exact Nat.le_of_eq (Nat.add_comm _ _)
  · intro tr s l s' hrun ih hl hlt
    have hspent := hm.spends tr s l s' hrun hlt hl
    rw [List.count_append] at hlt ⊢
    have hsofar := ih (by omega)
    have hone : [l].countP works = (works l).toNat := by
      cases hw : works l <;> simp [hw]
    rw [List.countP_append, hone, Nat.mul_add]
    omega

theorem count_eq_zero (hm : M.Metered a n k works left idle done) {ls : List lab}
    (hls : ∀ l ∈ ls, works l) : ls.count a = 0 := by
  rw [List.count_eq_zero]
  intro hmem
  exact Bool.false_ne_true (hm.not_works.symm.trans (hls a hmem))

/-- A step of work takes something off. -/
theorem spends_one (hm : M.Metered a n k works left idle done) (h : M.run tr = some s)
    (hlt : tr.count a < n) (hw : works l) (hl : M.step s l = some s') :
    (tr ++ [l]).count a = tr.count a ∧ left s' < left s := by
  have hzero : [l].count a = 0 := by
    refine hm.count_eq_zero fun k hk => ?_
    rw [List.mem_singleton.mp hk]
    exact hw
  have hsame : (tr ++ [l]).count a = tr.count a := by
    rw [List.count_append, hzero, Nat.add_zero]
  have hspent := hm.spends tr s l s' h (hsame.trans_lt hlt) hl
  rw [hzero, hw, Bool.toNat_true] at hspent
  exact ⟨hsame, by omega⟩

/-- **Work alone brings a run to its end.** -/
theorem exists_drain (hm : M.Metered a n k works left idle done) (h : M.run tr = some s)
    (hlt : tr.count a < n) :
    ∃ ls s', M.run (tr ++ ls) = some s' ∧ (∀ l ∈ ls, works l) ∧
      (tr ++ ls).count a = tr.count a ∧ done (tr ++ ls) = tr.count a ∧ idle s' := by
  induction hn : left s using Nat.strongRecOn generalizing tr s with
  | ind m ih =>
    subst hn
    rcases hm.works_or_idle tr s h hlt with ⟨l, t, hw, hl⟩ | hidle
    · obtain ⟨hsame, hless⟩ := hm.spends_one h hlt hw hl
      obtain ⟨ls, s', hrun, hall, hcount, hdone, hend⟩ :=
        ih (left t) hless ((M.run_snoc tr l t).mpr ⟨s, h, hl⟩) (hsame.trans_lt hlt) rfl
      rw [List.append_assoc] at hrun hcount hdone
      refine ⟨l :: ls, s', hrun, fun k hk => ?_, hcount.trans hsame, hdone.trans hsame, hend⟩
      rcases List.mem_cons.mp hk with rfl | hk
      · exact hw
      · exact hall k hk
    · rw [← List.append_nil tr] at h
      refine ⟨[], s, h, ?_, by rw [List.append_nil], ?_, hidle⟩
      · intro l hl
        cases hl
      · rw [List.append_nil] at h ⊢
        exact hm.done_of_idle tr s h hlt hidle

end Metered

end Machine

end Lib
