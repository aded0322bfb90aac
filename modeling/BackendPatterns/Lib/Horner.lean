import Mathlib.Algebra.BigOperators.Intervals
import Mathlib.Algebra.BigOperators.Ring.Finset
import Mathlib.Data.Int.ModEq

/-! # Horner's scheme

A polynomial is evaluated by one multiplication and one addition for each of its
coefficients, the highest first; and so it is modulo a number. -/

namespace BackendPatterns.Lib.Horner

variable {R : Type*} [CommSemiring R]

/-- The polynomial whose coefficients are the first `n` of `c`, the highest first. -/
def value (b : R) (c : Nat → R) (n : Nat) : R := ∑ i ∈ Finset.range n, c i * b ^ (n - 1 - i)

theorem value_succ (b : R) (c : Nat → R) (n : Nat) :
    value b c (n + 1) = value b c n * b + c n := by
  have hlast : c n * b ^ (n + 1 - 1 - n) = c n := by
    rw [Nat.add_sub_cancel, Nat.sub_self, pow_zero, mul_one]
  rw [value, Finset.sum_range_succ, hlast, value, Finset.sum_mul]
  refine congrArg (· + c n) (Finset.sum_congr rfl fun i hi => ?_)
  have hexp : n + 1 - 1 - i = n - 1 - i + 1 := by
    have hlt := Finset.mem_range.mp hi
    omega
  rw [hexp, pow_succ, mul_assoc]

/-- One step on the remainder. -/
theorem value_succ_emod (b : Int) (c : Nat → Int) (m : Int) (n : Nat) :
    value b c (n + 1) % m = (value b c n % m * b + c n) % m := by
  rw [value_succ]
  have hmod : value b c n ≡ value b c n % m [ZMOD m] := (Int.mod_modEq _ _).symm
  exact (hmod.mul_right b).add_right (c n)

end BackendPatterns.Lib.Horner
