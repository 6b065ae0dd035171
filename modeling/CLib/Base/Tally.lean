import Mathlib.Algebra.BigOperators.Group.Finset.Piecewise
import Mathlib.Algebra.Order.BigOperators.Group.Finset
import Mathlib.Tactic.Common

namespace CLib.Base
variable {ι σ : Type*} [Fintype ι] {w : σ → ℕ} {f : ι → σ}

/-- The total weight of the places where the members of a group stand. -/
def tally (w : σ → ℕ) (f : ι → σ) : ℕ := ∑ i, w (f i)

theorem le_tally (w : σ → ℕ) (f : ι → σ) (i : ι) : w (f i) ≤ tally w f :=
  Finset.single_le_sum (f := fun i => w (f i)) (fun _ _ => Nat.zero_le _) (Finset.mem_univ i)

theorem tally_eq_zero (h : ∀ i, w (f i) = 0) : tally w f = 0 :=
  Finset.sum_eq_zero fun i _ => h i

/-- If all others stand where there is no weight, only one member counts. -/
theorem tally_eq_single {i : ι} (h : ∀ j, j ≠ i → w (f j) = 0) : tally w f = w (f i) := by
  apply Finset.sum_eq_single_of_mem i (Finset.mem_univ i)
  intro j _ hj
  exact h j hj

theorem add_le_tally (w : σ → ℕ) (f : ι → σ) {i j : ι} (h : i ≠ j) : w (f i) + w (f j) ≤ tally w f := by
  classical
  rw [← Finset.sum_pair (f := fun i => w (f i)) h]
  exact Finset.sum_le_sum_of_subset (Finset.subset_univ _)

variable [DecidableEq ι]

theorem tally_update (w : σ → ℕ) (f : ι → σ) (i : ι) (x : σ) :
    tally w (Function.update f i x) + w (f i) = tally w f + w x := by
  have hcomp : (fun j => w (Function.update f i x j)) =
      Function.update (fun j => w (f j)) i (w x) := by
    funext j
    by_cases hj : j = i
    · subst hj
      rw [Function.update_self, Function.update_self]
    · rw [Function.update_of_ne hj, Function.update_of_ne hj]
  have herase := Finset.add_sum_erase Finset.univ (fun j => w (f j)) (Finset.mem_univ i)
  rw [tally, hcomp, Finset.sum_update_of_mem (Finset.mem_univ i), Finset.sdiff_singleton_eq_erase,
    tally, ← herase]
  omega

end CLib.Base
