import CLib.Base.Tally
import Mathlib.Logic.Function.Basic
import Mathlib.Tactic.Common

namespace CLib.Base
variable {γ δ τ : Type*} {inSection : δ → Bool} {name : γ → τ} {f : γ → δ} {m : Option τ}
  {i : γ} {pc : δ}

/-- Of the threads `f`, exactly the owner of the mutex stands inside the section. -/
def OwnedBy (inSection : δ → Bool) (name : γ → τ) (f : γ → δ) (m : Option τ) : Prop :=
  ∀ i, inSection (f i) ↔ m = some (name i)

namespace OwnedBy

theorem outside_of_ne (h : OwnedBy inSection name f m) (hi : m ≠ some (name i)) :
    inSection (f i) = false := by
  rw [Bool.eq_false_iff, Ne, h i]
  exact hi

theorem tally_eq [Fintype γ] (h : OwnedBy inSection name f m) (hname : Function.Injective name)
    {w : δ → ℕ} (hw : ∀ pc, inSection pc = false → w pc = 0) (hi : m = some (name i)) :
    tally w f = w (f i) := by
  apply tally_eq_single
  intro j hj
  apply hw
  apply h.outside_of_ne
  rw [hi]
  exact fun heq => hj (hname (Option.some.inj heq)).symm

theorem tally_eq_zero [Fintype γ] (h : OwnedBy inSection name f m)
    {w : δ → ℕ} (hw : ∀ pc, inSection pc = false → w pc = 0) (hm : ∀ i, m ≠ some (name i)) :
    tally w f = 0 := by
  apply CLib.Base.tally_eq_zero
  intro j
  exact hw _ (h.outside_of_ne (hm j))

theorem of_not_owner (h : OwnedBy inSection name f m) (hm : ∀ i, m ≠ some (name i)) {m' : Option τ}
    (hm' : ∀ i, m' ≠ some (name i)) : OwnedBy inSection name f m' := by
  intro i
  rw [h i]
  exact iff_of_false (hm i) (hm' i)

variable [DecidableEq γ]

/-- A thread that does not cross the border of the section leaves the owner as it is. -/
theorem keep (h : OwnedBy inSection name f m) (hpc : inSection pc = inSection (f i)) :
    OwnedBy inSection name (Function.update f i pc) m := by
  intro j
  by_cases hj : j = i
  · subst hj
    rw [Function.update_self, hpc, h j]
  · rw [Function.update_of_ne hj, h j]

theorem lock (h : OwnedBy inSection name f none) (hname : Function.Injective name)
    (hpc : inSection pc = true) :
    OwnedBy inSection name (Function.update f i pc) (some (name i)) := by
  intro j
  by_cases hj : j = i
  · subst hj
    simp [hpc]
  · rw [Function.update_of_ne hj, h j, Option.some.injEq, hname.eq_iff]
    simp [Ne.symm hj]

theorem unlock (h : OwnedBy inSection name f (some (name i))) (hname : Function.Injective name)
    (hpc : inSection pc = false) : OwnedBy inSection name (Function.update f i pc) none := by
  intro j
  by_cases hj : j = i
  · subst hj
    simp [hpc]
  · rw [Function.update_of_ne hj, h j, Option.some.injEq, hname.eq_iff]
    simp [Ne.symm hj]

end OwnedBy
end CLib.Base
