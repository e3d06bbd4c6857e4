import Mathlib.Algebra.Ring.Nat

/-!
# Unsigned registers

A `w`-bit unsigned register is a natural number below `2 ^ w`; sums are reduced
with `%` and differences with `wsub`, which borrows from `2 ^ w`.
-/

namespace Lib

/-- Difference of `w`-bit unsigned registers. -/
def wsub (w a b : Nat) : Nat := (a + (2 ^ w - b % 2 ^ w)) % 2 ^ w

theorem wsub_of_le {w a b : Nat} (ha : a < 2 ^ w) (hba : b ≤ a) : wsub w a b = a - b := by
  have hb : b % 2 ^ w = b := Nat.mod_eq_of_lt (by omega)
  rw [wsub, hb, show a + (2 ^ w - b) = a - b + 2 ^ w by omega, Nat.add_mod_right,
    Nat.mod_eq_of_lt (by omega)]

/-- On the residues of two counters the register difference is the residue of
the true difference: it never exceeds it. -/
theorem wsub_mod {w x y : Nat} (h : y ≤ x) :
    wsub w (x % 2 ^ w) (y % 2 ^ w) = (x - y) % 2 ^ w := by
  have hy : y % 2 ^ w < 2 ^ w := Nat.mod_lt _ (Nat.two_pow_pos w)
  have hx := Nat.div_add_mod x (2 ^ w)
  have hdy := Nat.div_add_mod y (2 ^ w)
  rw [wsub, Nat.mod_mod, Nat.mod_add_mod]
  have e : x + (2 ^ w - y % 2 ^ w) = (x - y) + 2 ^ w * (y / 2 ^ w + 1) := by
    rw [Nat.mul_add, Nat.mul_one]
    omega
  rw [e, Nat.add_mul_mod_self_left]

theorem wsub_mod_le {w x y : Nat} (h : y ≤ x) : wsub w (x % 2 ^ w) (y % 2 ^ w) ≤ x - y := by
  rw [wsub_mod h]
  exact Nat.mod_le _ _

end Lib
