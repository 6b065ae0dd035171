import Mathlib.Algebra.Ring.Int.Defs
import Mathlib.Tactic.Common

namespace CLib.Base

/-- A quotient survives the reduction of the dividend exactly if nothing was reduced. -/
theorem mod_div_eq_div_iff {a m d : ℕ} (hd : 0 < d) (hdm : d ≤ m) : a % m / d = a / d ↔ a < m := by
  refine ⟨fun h => ?_, fun h => by rw [Nat.mod_eq_of_lt h]⟩
  by_contra hge
  -- The reduction takes off at least one divisor.
  have hpos : 0 < a / m := Nat.div_pos (Nat.not_lt.mp hge) (by omega)
  have hreduced : a % m + d ≤ a := by
    have hsplit := Nat.mod_add_div a m
    have hle : m * 1 ≤ m * (a / m) := Nat.mul_le_mul_left m hpos
    omega
  have hlt : a % m / d + 1 ≤ a / d := by
    rw [← Nat.add_div_right _ hd]
    exact Nat.div_le_div_right hreduced
  omega

/-- A difference of reduced numbers lacks a multiple of the modulus for each number that
was reduced more often. -/
theorem sub_mod_eq (a b m : ℕ) :
    ((b % m : ℕ) : ℤ) - ((a % m : ℕ) : ℤ) = (b : ℤ) - a - m * (((b / m : ℕ) : ℤ) - ((a / m : ℕ) : ℤ)) := by
  have ha : ((a % m : ℕ) : ℤ) + m * ((a / m : ℕ) : ℤ) = a := by
    exact_mod_cast Nat.mod_add_div a m
  have hb : ((b % m : ℕ) : ℤ) + m * ((b / m : ℕ) : ℤ) = b := by
    exact_mod_cast Nat.mod_add_div b m
  rw [Int.mul_sub]
  omega

end CLib.Base
