import Mathlib.Data.List.FinRange
import Doradd.Lib.Fallible

/-!
# Schedules that keep the order of conflicting operations

Operations are listed in a log.  A schedule is an order of the log's positions;
it is allowed if any two operations that conflict stay in log order.

* `Commutes`: in the states of interest, operations that do not conflict commute;
* `Allowed.exec_eq`: then every allowed schedule ends in the state that the log,
  run in its own order, ends in.
-/

namespace Lib

variable {op σ : Type}

/-- Run operations one after the other. -/
def exec (step : op → σ → σ) (ops : List op) (s : σ) : σ := ops.foldl (fun s a => step a s) s

section
variable (step : op → σ → σ)

@[simp] theorem exec_nil (s : σ) : exec step [] s = s := rfl

@[simp] theorem exec_cons (a : op) (ops : List op) (s : σ) :
    exec step (a :: ops) s = exec step ops (step a s) := rfl

theorem exec_append (as bs : List op) (s : σ) :
    exec step (as ++ bs) s = exec step bs (exec step as s) := List.foldl_append

theorem exec_snoc (ops : List op) (a : op) (s : σ) :
    exec step (ops ++ [a]) s = step a (exec step ops s) := List.foldl_concat _ _ _ _

end

/-- Fallible operations, run until one fails. -/
theorem exec_bind {ε : Type} (f : σ → op → Except ε σ) (ops : List op) (s : Except ε σ) :
    exec (fun a s => s >>= fun x => f x a) ops s = s >>= fun x => ops.foldlM f x := by
  induction ops generalizing s with
  | nil =>
    cases s with
    | error e => rfl
    | ok x => rfl
  | cons a ops ih =>
    cases s with
    | error e => exact ih (.error e)
    | ok x => exact (ih (f x a)).trans (List.foldlM_cons).symm

/-- `Ok s ops`: from `s` the operations `ops` may be run in any order.  Where
this holds, operations that do not conflict commute. -/
structure Commutes (step : op → σ → σ) (conflict : op → op → Prop) (Ok : σ → List op → Prop) :
    Prop where
  ok_perm : ∀ {s ops ops'}, ops.Perm ops' → Ok s ops → Ok s ops'
  ok_step : ∀ {s a ops}, Ok s (a :: ops) → Ok (step a s) ops
  comm : ∀ {s a b ops}, Ok s (a :: b :: ops) → ¬ conflict a b →
    step b (step a s) = step a (step b s)

variable {step : op → σ → σ} {conflict : op → op → Prop} {Ok : σ → List op → Prop}

/-- An operation that conflicts with none of those before it can be run first. -/
theorem Commutes.exec_middle (hc : Commutes step conflict Ok) (a : op) (pre post : List op) (s : σ)
    (hok : Ok s (pre ++ a :: post)) (hpre : ∀ b ∈ pre, ¬ conflict b a) :
    exec step (pre ++ a :: post) s = exec step (a :: (pre ++ post)) s := by
  induction pre generalizing s with
  | nil => rfl
  | cons b pre ih =>
    have hba : ¬ conflict b a := hpre b List.mem_cons_self
    have hab : Ok s (b :: a :: (pre ++ post)) := hc.ok_perm (List.perm_middle.cons b) hok
    calc exec step (b :: pre ++ a :: post) s
        = exec step (pre ++ a :: post) (step b s) := rfl
      _ = exec step (a :: (pre ++ post)) (step b s) :=
        ih (step b s) (hc.ok_step hok) fun c hb => hpre c (List.mem_cons_of_mem b hb)
      _ = exec step (pre ++ post) (step b (step a s)) := by rw [exec_cons, hc.comm hab hba]

/-- **Sorting.**  A list of positions in which conflicting positions are in
order may be sorted. -/
theorem Commutes.exec_sort {ι : Type} [LinearOrder ι] (hc : Commutes step conflict Ok) (f : ι → op)
    {order sorted : List ι} (hs : sorted.Pairwise (· < ·)) (hp : order.Perm sorted)
    (hk : order.Pairwise fun i j => conflict (f i) (f j) → i < j) (s : σ)
    (hok : Ok s (order.map f)) :
    exec step (order.map f) s = exec step (sorted.map f) s := by
  induction sorted generalizing order s with
  | nil => rw [hp.eq_nil]
  | cons i sorted ih =>
    rw [List.pairwise_cons] at hs
    -- the least position stands somewhere in `order`
    obtain ⟨pre, post, rfl⟩ := List.append_of_mem (hp.mem_iff.mpr List.mem_cons_self)
    have hrest : (pre ++ post).Perm sorted := (List.perm_middle.symm.trans hp).cons_inv
    have hpre : ∀ b ∈ pre.map f, ¬ conflict b (f i) := by
      intro b hb hconf
      obtain ⟨j, hj, rfl⟩ := List.mem_map.mp hb
      have hlt := (List.pairwise_append.mp hk).2.2 j hj i List.mem_cons_self hconf
      exact absurd hlt (not_lt_of_gt (hs.1 j (hrest.subset (List.mem_append_left post hj))))
    rw [List.map_append, List.map_cons] at hok ⊢
    rw [hc.exec_middle (f i) (pre.map f) (post.map f) s hok hpre, ← List.map_append]
    have hsub : (pre ++ post).Sublist (pre ++ i :: post) :=
      (List.sublist_cons_self i post).append_left pre
    have hok' : Ok (step (f i) s) ((pre ++ post).map f) := by
      rw [List.map_append]
      exact hc.ok_step (hc.ok_perm List.perm_middle hok)
    exact ih hs.2 hrest (hk.sublist hsub) (step (f i) s) hok'

/-- An order of the positions of `log` that keeps conflicting operations in log
order. -/
structure Allowed (conflict : op → op → Prop) (log : List op) (order : List (Fin log.length)) :
    Prop where
  perm : order.Perm (List.finRange log.length)
  keeps : order.Pairwise fun i j => conflict (log.get i) (log.get j) → i < j

theorem Allowed.perm_log {log : List op} {order : List (Fin log.length)}
    (h : Allowed conflict log order) : (order.map log.get).Perm log := by
  have hlog : (List.finRange log.length).map log.get = log := List.map_get_finRange log
  have := h.perm.map log.get
  rwa [hlog] at this

/-- **Every allowed schedule is as good as the log's own order.** -/
theorem Allowed.exec_eq (hc : Commutes step conflict Ok) {log : List op}
    {order : List (Fin log.length)} (h : Allowed conflict log order) {s : σ} (hok : Ok s log) :
    exec step (order.map log.get) s = exec step log s := by
  rw [hc.exec_sort log.get (List.pairwise_lt_finRange _) h.perm h.keeps s
    (hc.ok_perm h.perm_log.symm hok), List.map_get_finRange log]

/-! ## Operations that stand for others -/

section

variable {op' : Type} {step' : op' → σ → σ} {f : op' → op} {Good : op' → Prop}

theorem exec_comap (h : ∀ a, Good a → step' a = step (f a)) {ops : List op'}
    (hg : ∀ a ∈ ops, Good a) (s : σ) : exec step' ops s = exec step (ops.map f) s := by
  induction ops generalizing s with
  | nil => rfl
  | cons a ops ih =>
    rw [List.map_cons, exec_cons, exec_cons, h a (hg a List.mem_cons_self)]
    exact ih (fun b hb => hg b (List.mem_cons_of_mem a hb)) _

theorem Commutes.comap (hc : Commutes step conflict Ok) {conflict' : op' → op' → Prop}
    (h : ∀ a, Good a → step' a = step (f a))
    (hconf : ∀ a b, Good a → Good b → conflict (f a) (f b) → conflict' a b) :
    Commutes step' conflict' fun s ops => (∀ a ∈ ops, Good a) ∧ Ok s (ops.map f) where
  ok_perm := by
    rintro s ops ops' hp ⟨hg, hok⟩
    exact ⟨fun a ha => hg a (hp.mem_iff.mpr ha), hc.ok_perm (hp.map f) hok⟩
  ok_step := by
    rintro s a ops ⟨hg, hok⟩
    rw [h a (hg a List.mem_cons_self)]
    exact ⟨fun b hb => hg b (List.mem_cons_of_mem a hb), hc.ok_step hok⟩
  comm := by
    rintro s a b ops ⟨hg, hok⟩ hne
    have ha := hg a List.mem_cons_self
    have hb := hg b (List.mem_cons_of_mem a List.mem_cons_self)
    rw [h a ha, h b hb]
    exact hc.comm hok fun hconf' => hne (hconf a b ha hb hconf')

end

end Lib
